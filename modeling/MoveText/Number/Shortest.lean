import MoveText.Number.Binary64
import MoveText.Number.Decimal

/-!
# The shortest decimal that reads back

A finite number is written with the fewest decimal digits that round to it again; of the texts of
that length it takes the one nearest to the number. The point stands among the digits or beside
zeros for magnitudes from `10 ^ -6` up to `10 ^ 21`; outside that range an exponent follows.
-/

namespace MoveText.Binary64

/-- The magnitude of a positive number and the two ends of the interval that rounds to it, over one
denominator. The lower half-gap is narrower at a power of two. -/
structure Rounding where
  value : Nat
  low : Nat
  high : Nat
  den : Nat
  closed : Bool

/-- The interval of a positive number. The ends belong to it when the significand is even. -/
def rounding (significand : Nat) (exponent : Int) : Rounding :=
  let unit := scale 1 1 (exponent - 2)
  let below := if significand = Nat.pow 2 52 && minExponent < exponent then 1 else 2
  { value := 4 * significand * unit.1
    low := (4 * significand - below) * unit.1
    high := (4 * significand + 2) * unit.1
    den := unit.2
    closed := significand % 2 == 0 }

/-- Whether the fraction `num / den` lies in the interval. -/
def Rounding.contains (r : Rounding) (num den : Nat) : Bool :=
  let x := num * r.den
  if r.closed then r.low * den ≤ x && x ≤ r.high * den else r.low * den < x && x < r.high * den

/-- A bound on the places that the least positive number has after the point. -/
def maxPlaces : Nat := 340

/-- How many digits stand before the point; negative when zeros follow it. -/
def Rounding.pointPosition (r : Rounding) : Int :=
  ((Text.ofNat (r.value * Nat.pow 10 maxPlaces / r.den)).length : Int) - maxPlaces

/-- The nearest of the two neighbours of the number among the multiples of `10 ^ power` that lie in
the interval, as a multiple of that power. -/
def Rounding.onGrid? (r : Rounding) (power : Int) : Option Nat :=
  let step : Nat × Nat :=
    if 0 ≤ power then (Nat.pow 10 power.toNat, 1) else (1, Nat.pow 10 (-power).toNat)
  let num := r.value * step.2
  let den := r.den * step.1
  let low := num / den
  let isIn := fun c => r.contains (c * step.1) step.2
  let doubled := 2 * (num % den)
  let nearest := if doubled < den || (doubled == den && low % 2 == 0) then low else low + 1
  let other := if nearest = low then low + 1 else low
  if isIn nearest then some nearest else if isIn other then some other else none

/-- The digits of the first grid with a hit, among grids of `count`, `count + 1`, … digits. -/
def Rounding.digitsFrom (r : Rounding) (point : Int) (count : Nat) : Nat → Nat × Int
  | 0 => (0, point)
  | more + 1 =>
    match r.onGrid? (point - count) with
    | some digits => (digits, point - count)
    | none => r.digitsFrom point (count + 1) more

/-- The fewest digits that read back, and the power of ten of the last of them. -/
def Rounding.shortest (r : Rounding) : Nat × Int := r.digitsFrom r.pointPosition 1 17

/-- The digits without zeros at their end, and the place of the point among them. -/
def placed (digits : Nat) (power : Int) : Text × Int :=
  let all := Text.ofNat digits
  ((all.reverse.dropWhile (· == '0')).reverse, all.length + power)

/-- The text of digits with the point `point` places after the first of them. -/
def layout (digits : Text) (point : Int) : Text :=
  let count : Int := digits.length
  if count ≤ point && point ≤ 21 then digits ++ List.replicate (point - count).toNat '0'
  else if 0 < point && point ≤ 21 then
    digits.take point.toNat ++ '.' :: digits.drop point.toNat
  else if -6 < point && point ≤ 0 then
    '0' :: '.' :: (List.replicate (-point).toNat '0' ++ digits)
  else
    let power := point - 1
    let sign := if power < 0 then '-' else '+'
    digits.take 1 ++ (if digits.length ≤ 1 then [] else '.' :: digits.drop 1)
      ++ 'e' :: sign :: Text.ofNat power.natAbs

/-- The text of a number. Zero has no sign. -/
def toText : Binary64 → Text
  | infinite negative => (if negative then ['-'] else []) ++ "Infinity".toList
  | finite negative significand exponent =>
    if significand = 0 then ['0']
    else
      let (digits, power) := (rounding significand exponent).shortest
      let (shown, point) := placed digits power
      (if negative then ['-'] else []) ++ layout shown point

/-- The text of an integer that is kept as a floating-point number: exact below 2 ^ 53, and beyond
that of the number nearest to it. -/
def textOfInt (n : Int) : Text :=
  if n.natAbs < Nat.pow 2 53 then Text.ofInt n else (ofInt n).toText

end MoveText.Binary64
