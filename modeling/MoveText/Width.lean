import MoveText.Text

/-!
# Integer widths

The three unsigned integer widths that arguments come in.
-/

namespace MoveText

/-- A width of unsigned integers. -/
inductive Width where
  | u8
  | u64
  | u128
  deriving DecidableEq, Repr

namespace Width

/-- The name of the width, which is also its suffix on a literal. -/
def label : Width → Text
  | u8 => "u8".toList
  | u64 => "u64".toList
  | u128 => "u128".toList

/-- The width with the given name. -/
def ofLabel? (s : Text) : Option Width := [u8, u64, u128].find? (·.label == s)

/-- The bytes that a value takes in binary form. -/
def byteCount : Width → Nat
  | u8 => 1
  | u64 => 8
  | u128 => 16

/-- The greatest value of the width. -/
def max (w : Width) : Nat := Nat.pow 256 w.byteCount - 1

end Width

end MoveText
