import MoveText.Number.Hexadecimal
import MoveText.Number.Numeral
import MoveText.Value

/-!
# Unchecked values as numbers

What a value counts as where a number is called for. A truth value counts as one or zero, and a
value that is no number goes by the numeral that its text is. `toNumber` allows any number and takes
nothing to be zero; `toWhole` calls for an integer and takes it exactly. Items that stand for bytes
are shown by `hexOfItems?` and stored by `toByte`.
-/

namespace MoveText

/-- Why a value counts as no number of the sort called for. -/
inductive NumberFault where
  /-- It is nothing, or has no text. -/
  | unusable
  /-- It is a number, but no integer. -/
  | broken
  /-- Its text is no numeral. -/
  | notANumeral
  deriving DecidableEq, Repr

namespace Value

/-- What a reader of numerals makes of the text of a value. -/
def readText {α : Type} (read? : Text → Option α) (v : Value) : Except NumberFault α :=
  match v.toText? with
  | none => .error .unusable
  | some s =>
    match read? s with
    | some a => .ok a
    | none => .error .notANumeral

/-- The number that a value counts as. -/
def toNumber : Value → Except NumberFault Binary64
  | null => .ok .zero
  | bool b => .ok (if b then .one else .zero)
  | number x => .ok x
  | integer n => .ok (Binary64.ofInt n)
  | v => readText Text.readNumber? v

/-- The integer that a value counts as. -/
def toWhole : Value → Except NumberFault Int
  | null => .error .unusable
  | bool b => .ok (if b then 1 else 0)
  | number x =>
    match x.toInt? with
    | some n => .ok n
    | none => .error .broken
  | integer n => .ok n
  | v => readText Text.readInteger? v

/-- The byte that is stored for a value: the last eight bits of the integer part of its number,
and zero if it has none. -/
def toByte (v : Value) : UInt8 :=
  match v.toNumber with
  | .ok x => UInt8.ofNat (x.truncate % 256).toNat
  | .error _ => 0

/-- The text of a value to base 16, which matters for numbers alone. -/
def hexText? : Value → Option Text
  | null => none
  | number x => some x.toHexText
  | integer n => some ((if n < 0 then ['-'] else []) ++ Binary64.hexOfNat n.natAbs)
  | v => v.toText?

/-- The texts to base 16 of items, each filled up to two digits. -/
def hexOfItems? : List Value → Option Text
  | [] => some []
  | item :: items =>
    match item.hexText?, hexOfItems? items with
    | some digits, some others => some (Text.padLeft 2 '0' digits ++ others)
    | _, _ => none

end Value

end MoveText
