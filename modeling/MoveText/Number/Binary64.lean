/-!
# Binary floating-point numbers

A `Binary64` is a finite number `± significand · 2 ^ exponent` or an infinity; NaN is not
represented. `ofDecimal` rounds a decimal number to the nearest one with 53 significant bits and no
exponent below -1074, a tie to the even significand; what exceeds the range becomes infinite.
-/

namespace MoveText

/-- A binary floating-point number, kept exactly. -/
inductive Binary64 where
  | finite (negative : Bool) (significand : Nat) (exponent : Int)
  | infinite (negative : Bool)
  deriving DecidableEq, Repr

namespace Binary64

/-- The least exponent of a finite number. -/
def minExponent : Int := -1074

/-- The integer nearest to `num / den`, a tie to the even one. -/
def roundDiv (num den : Nat) : Nat :=
  let low := num / den
  let doubled := 2 * (num % den)
  if doubled < den then low
  else if den < doubled then low + 1
  else low + low % 2

/-- A fraction multiplied by a power of two. -/
def scale (num den : Nat) (power : Int) : Nat × Nat :=
  if 0 ≤ power then (num * Nat.pow 2 power.toNat, den)
  else (num, den * Nat.pow 2 (-power).toNat)

/-- The greatest `k` with `2 ^ k ≤ num / den`, for a positive fraction. -/
def floorLog2 (num den : Nat) : Int :=
  let guess : Int := (Nat.log2 num : Int) - (Nat.log2 den : Int)
  let (n, d) := scale num den (-guess)
  if d ≤ n then guess else guess - 1

/-- The number nearest to the fraction `num / den`. -/
def ofFraction (negative : Bool) (num den : Nat) : Binary64 :=
  if num = 0 then finite negative 0 minExponent
  else
    let exponent := max (floorLog2 num den - 52) minExponent
    let (n, d) := scale num den (-exponent)
    let significand := roundDiv n d
    let (significand, exponent) :=
      if significand = Nat.pow 2 53 then (Nat.pow 2 52, exponent + 1) else (significand, exponent)
    if 971 < exponent then infinite negative else finite negative significand exponent

/-- The number nearest to `± digits · 10 ^ power`. Nothing is multiplied out for a power that makes
the number infinite or zero whatever the digits are. -/
def ofDecimal (negative : Bool) (digits : Nat) (power : Int) : Binary64 :=
  if digits = 0 then finite negative 0 minExponent
  else if 308 < power then infinite negative
  else if (Nat.log2 digits : Int) + 1 + 3 * power < minExponent then finite negative 0 minExponent
  else if 0 ≤ power then ofFraction negative (digits * Nat.pow 10 power.toNat) 1
  else ofFraction negative digits (Nat.pow 10 (-power).toNat)

/-- The number nearest to an integer. -/
def ofInt (n : Int) : Binary64 := ofFraction (n < 0) n.natAbs 1

/-- Zero. -/
def zero : Binary64 := finite false 0 minExponent

/-- One. -/
def one : Binary64 := ofInt 1

/-- The magnitude of a finite number as a fraction. -/
def magnitude (significand : Nat) (exponent : Int) : Nat × Nat := scale significand 1 exponent

/-- The integer part, towards zero; zero for an infinity. -/
def truncate : Binary64 → Int
  | finite negative significand exponent =>
    let (n, d) := magnitude significand exponent
    if negative then -((n / d : Nat) : Int) else ((n / d : Nat) : Int)
  | infinite _ => 0

/-- The integer that the number is, if it is one. -/
def toInt? : Binary64 → Option Int
  | x@(finite _ significand exponent) =>
    let (n, d) := magnitude significand exponent
    if n % d = 0 then some x.truncate else none
  | infinite _ => none

/-- Whether the number lies below zero. -/
def isNegative : Binary64 → Bool
  | finite negative significand _ => negative && significand != 0
  | infinite negative => negative

/-- Whether the number is greater than `bound`. -/
def exceeds (x : Binary64) (bound : Nat) : Bool :=
  match x with
  | finite negative significand exponent =>
    let (n, d) := magnitude significand exponent
    !negative && bound * d < n
  | infinite negative => !negative

end Binary64

end MoveText
