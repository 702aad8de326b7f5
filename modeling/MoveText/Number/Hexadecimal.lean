import MoveText.Number.Binary64
import MoveText.Text

/-!
# Numbers to base 16

`toHexText` writes a number to base 16, exactly and without an exponent: a finite number has
finitely many digits after the point.
-/

namespace MoveText.Binary64

/-- The digits of a natural number to base 16. -/
def hexOfNat (n : Nat) : Text := Nat.toDigits 16 n

/-- The digits after the point of the fraction `rest / 2 ^ places`, which is less than one. -/
def hexFraction (rest places : Nat) : Text :=
  let count := (places + 3) / 4
  let digits := hexOfNat (rest * Nat.pow 2 (4 * count - places))
  ((Text.padLeft count '0' digits).reverse.dropWhile (· == '0')).reverse

/-- The magnitude of a finite number to base 16. -/
def hexMagnitude (significand : Nat) (exponent : Int) : Text :=
  if 0 ≤ exponent then hexOfNat (significand * Nat.pow 2 exponent.toNat)
  else
    let places := (-exponent).toNat
    let whole := hexOfNat (significand / Nat.pow 2 places)
    let rest := significand % Nat.pow 2 places
    if rest = 0 then whole else whole ++ '.' :: hexFraction rest places

/-- The text of a number to base 16. Zero has no sign. -/
def toHexText : Binary64 → Text
  | infinite negative => (if negative then ['-'] else []) ++ "Infinity".toList
  | finite negative significand exponent =>
    (if negative && significand != 0 then ['-'] else []) ++ hexMagnitude significand exponent

end MoveText.Binary64
