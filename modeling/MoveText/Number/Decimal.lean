import MoveText.Text

/-!
# Whole numbers in decimal

The digits of a number without leading zeros, and a minus sign before those of a negative one.
-/

namespace MoveText.Text

/-- The decimal digits of a natural number. -/
def ofNat (n : Nat) : Text := Nat.toDigits 10 n

/-- The decimal text of an integer. -/
def ofInt (n : Int) : Text := if n < 0 then '-' :: ofNat n.natAbs else ofNat n.natAbs

end MoveText.Text
