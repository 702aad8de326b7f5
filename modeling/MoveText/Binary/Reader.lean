import MoveText.Binary.Uleb
import MoveText.Number.Decimal
import MoveText.Text.Utf8

/-!
# Reading bytes

A `ByteReader` takes bytes off the front and leaves the rest. Numbers in the variable-length form
may not exceed 2 ^ 53 - 1, and a list may not claim to have more than 2 ^ 32 - 1 items, which is
looked at before the first of them is read.
-/

namespace MoveText

/-- The layouts with numbered variants. -/
inductive VariantLayout where
  | typeTag
  | argument
  deriving DecidableEq, Repr

/-- The name of a layout with numbered variants. -/
def VariantLayout.label : VariantLayout → Text
  | typeTag => "TypeTag".toList
  | argument => "TransactionArgument".toList

/-- Why bytes cannot be read. -/
inductive ReadFault where
  /-- The bytes end within a variable-length number. -/
  | cutNumber
  /-- A variable-length number is too great. -/
  | hugeNumber
  /-- There is no variant of this number. -/
  | unknownVariant (index : Nat) (layout : VariantLayout)
  /-- The bytes end within a part of known length, or a list is too long. -/
  | outOfRange
  deriving DecidableEq, Repr

/-- The name of the sort of a fault. -/
def ReadFault.label : ReadFault → Text
  | cutNumber | hugeNumber => "Error".toList
  | unknownVariant .. => "TypeError".toList
  | outOfRange => "RangeError".toList

/-- The wording of a fault; a bare range fault has none. -/
def ReadFault.message? : ReadFault → Option Text
  | cutNumber => some "ULEB decode error: buffer overflow".toList
  | hugeNumber => some "ULEB decode error: value exceeds MAX_SAFE_INTEGER".toList
  | unknownVariant index layout =>
    some ("Unknown value ".toList ++ Text.ofNat index ++ " for enum ".toList ++ layout.label)
  | outOfRange => none

/-- A routine that takes bytes off the front. -/
def ByteReader (α : Type) := Bytes → Except ReadFault (α × Bytes)

namespace ByteReader

variable {α β : Type}

instance : Monad ByteReader where
  pure a := fun bytes => .ok (a, bytes)
  bind r f := fun bytes =>
    match r bytes with
    | .ok (a, rest) => f a rest
    | .error fault => .error fault

/-- Stops reading. -/
def fail (fault : ReadFault) : ByteReader α := fun _ => .error fault

/-- The greatest number that a variable-length form may denote. -/
def greatestNumber : Nat := Nat.pow 2 53 - 1

/-- The greatest number of items in a list. -/
def greatestCount : Nat := Nat.pow 2 32 - 1

/-- A variable-length number. -/
def number : ByteReader Nat := fun bytes =>
  match Uleb.decode? bytes with
  | none => .error .cutNumber
  | some (n, rest) => if greatestNumber < n then .error .hugeNumber else .ok (n, rest)

/-- As many bytes as are asked for. -/
def exactly : Nat → ByteReader Bytes
  | 0, bytes => .ok ([], bytes)
  | _ + 1, [] => .error .outOfRange
  | count + 1, b :: rest => (exactly count rest).map fun (taken, rest) => (b :: taken, rest)

/-- The number that bytes denote, the lowest first. -/
def ofLittleEndian : Bytes → Nat
  | [] => 0
  | b :: rest => b.toNat + 256 * ofLittleEndian rest

/-- An unsigned integer of the given number of bytes. -/
def unsigned (byteCount : Nat) : ByteReader Nat := do
  let bytes ← exactly byteCount
  return ofLittleEndian bytes

/-- A string: its length in bytes, and its body. -/
def string : ByteReader Text := do
  let count ← number
  let bytes ← exactly count
  return Text.decodeText bytes

/-- As many items as are asked for, one after the other. -/
def times (item : ByteReader α) : Nat → ByteReader (List α)
  | 0 => return []
  | count + 1 => do
    let first ← item
    let others ← times item count
    return first :: others

/-- A list: its length, and its items. -/
def list (item : ByteReader α) : ByteReader (List α) := do
  let count ← number
  if greatestCount < count then fail .outOfRange else times item count

end ByteReader

end MoveText
