import MoveText.Argument.View
import MoveText.Binary.Layout
import MoveText.Parse
import MoveText.TypeTag.View
import MoveText.Value.Number

/-!
# Unchecked values in binary form

A value that is to be written in binary form is checked part by part, in the order in which the
parts are written, and the first fault is reported. A tag or an argument has to have exactly one of
the fields that name variants; fields of other names do not matter. A struct type on its own is
first measured, which takes the digits of its address, so an address with anything but digits
is reported in another way there.
-/

namespace MoveText

/-- Why a value has no binary form. -/
inductive WriteFault where
  /-- A record had to be here. -/
  | notAnObject (found : Text)
  /-- One variant had to be named. -/
  | variantCount (count : Nat) (layout : VariantLayout)
  /-- The integer does not fit its width. -/
  | outOfRange (width : Width) (shown : Text)
  /-- A truth value had to be here. -/
  | notABool (found : Text)
  /-- A text had to be here. -/
  | notAString (shown : Text)
  /-- A list had to be here. -/
  | notAList (found : Text)
  /-- The text or the bytes are no address. -/
  | badAddress (shown : Text)
  /-- The address has a character that is no digit. -/
  | badHex (normal : Text)
  /-- An address has too few bytes. -/
  | badLength (count : Nat)
  /-- The text does not denote a tag. -/
  | failed (failure : Failure)
  /-- An integer had to be here, and there is another number. -/
  | notWhole
  /-- An integer had to be here, and the text is no numeral. -/
  | notANumeral
  /-- The value is of a sort that nothing can be made of. -/
  | unusable
  deriving Repr

namespace WriteFault

/-- The name of the sort of a fault: it lies in the sort of a value, or in what it holds. -/
def label : WriteFault → Text
  | badAddress _ | badHex _ => "Error".toList
  | failed failure => failure.label
  | notWhole => "RangeError".toList
  | notANumeral => "SyntaxError".toList
  | _ => "TypeError".toList

/-- The wording of a fault. -/
def message? : WriteFault → Option Text
  | notAnObject found => some ("Expected object, found ".toList ++ found)
  | variantCount count layout =>
    some ("Expected object with one key, but found ".toList ++ Text.ofNat count
      ++ " for type ".toList ++ layout.label ++ ['\x7d'])
  | outOfRange width shown =>
    some ("Invalid ".toList ++ width.label ++ " value: ".toList ++ shown
      ++ ". Expected value in range 0-".toList ++ Text.ofNat width.max)
  | notABool found => some ("Expected boolean, found ".toList ++ found)
  | notAString shown =>
    some ("Invalid string value: ".toList ++ shown ++ ". Expected string".toList)
  | notAList found => some ("Expected array, found ".toList ++ found)
  | badAddress shown => some ("Invalid Move address ".toList ++ shown)
  | badHex normal => some ("Invalid hex string ".toList ++ normal)
  | badLength count =>
    some ("Expected array of length ".toList ++ Text.ofNat Address.byteCount
      ++ ", found ".toList ++ Text.ofNat count)
  | failed failure => some failure.message
  | notWhole | notANumeral | unusable => none

/-- Why there is no number. -/
def ofNumberFault : NumberFault → WriteFault
  | .unusable => unusable
  | .broken => notWhole
  | .notANumeral => notANumeral

end WriteFault

namespace Address

/-- The address of bytes that are shown by the given digits. -/
def ofShownBytes (digits : Text) (bytes : Bytes) : Except WriteFault Text :=
  if !isNormal (normalize digits) then .error (.badAddress digits)
  else if bytes.length ≠ byteCount then .error (.badLength bytes.length)
  else .ok (Text.hexOfBytes bytes)

/-- The address that a value holds: a text, or 32 bytes, or 32 items that stand for bytes. Whether
it is one shows in its digits, while the items are stored as bytes. -/
def ofValue : Option Value → Except WriteFault Text
  | some (.text s) => if isNormal (normalize s) then .ok s else .error (.badAddress s)
  | some (.bytes bytes) => ofShownBytes (Text.hexOfBytes bytes) bytes
  | some (.list items) =>
    match Value.hexOfItems? items with
    | some digits => ofShownBytes digits (items.map Value.toByte)
    | none => .error .unusable
  | _ => .error .unusable

end Address

/-- The text that a field holds. -/
def stringOfValue : Option Value → Except WriteFault Text
  | some (.text s) => .ok s
  | v => .error ((Value.optionText? v).elim .unusable .notAString)

/-- The fault of a value that should be a list. A record that claims to have a length passes for
one, but either the length cannot be written or there are no items. -/
def listFault (v : Option Value) : WriteFault :=
  match v.bind (·.field? "length".toList) with
  | none => .notAList (Value.typeName v)
  | some length =>
    match length.toWhole with
    | .error fault => .ofNumberFault fault
    | .ok _ => .unusable

/-- The items of the list that a field holds. -/
def itemsOfValue (v : Option Value) : Except WriteFault (List Value) :=
  match v.bind Value.items? with
  | some items => .ok items
  | none => .error (listFault v)

/-- The value as a record. -/
def checkObject (v : Value) : Except WriteFault Unit :=
  if v.isObject then .ok () else .error (.notAnObject (Value.typeName (some v)))

/-- The value as a record that names one of the given variants. -/
def checkVariants (layout : VariantLayout) (names : List Text) (v : Value) :
    Except WriteFault Unit := do
  checkObject v
  let count := names.countP v.has
  if count = 1 then .ok () else .error (.variantCount count layout)

/-- The names of the variants of tags. -/
def TypeTag.variantNames : List Text :=
  Primitive.all.map Primitive.label ++ [tagFields.vector, tagFields.struct]

/-- The name of a struct type that a record holds. -/
def StructName.ofValue (v : Value) : Except WriteFault StructName := do
  let address ← Address.ofValue (v.field? tagFields.address)
  let moduleName ← stringOfValue (v.field? tagFields.moduleName)
  let typeName ← stringOfValue (v.field? tagFields.typeName)
  return { address, moduleName, typeName }

private theorem itemsOfValue_lt {v : Value} {name : Text} {items : List Value}
    (h : itemsOfValue (v.field? name) = .ok items) : sizeOf items < sizeOf v := by
  cases hf : v.field? name with
  | none => simp [itemsOfValue, hf] at h
  | some w =>
    cases hi : w.items? with
    | none => simp [itemsOfValue, hf, hi] at h
    | some items' =>
      simp only [itemsOfValue, hf, Option.bind_some, hi, Except.ok.injEq] at h
      subst h
      have := Value.sizeOf_lt_of_field? hf
      have := Value.sizeOf_lt_of_items? hi
      omega

mutual

/-- The tag that a value is. -/
def TypeTag.ofValue (v : Value) : Except WriteFault TypeTag :=
  match checkVariants .typeTag TypeTag.variantNames v with
  | .error fault => .error fault
  | .ok () =>
    match Primitive.ofValue? v with
    | some type => .ok (.primitive type)
    | none =>
      match _h : v.field? tagFields.vector with
      | some element => (TypeTag.ofValue element).map .vector
      | none =>
        match _h : v.field? tagFields.struct with
        | some tag => (StructTag.ofValue tag).map StructTag.toTypeTag
        | none => .error .unusable
termination_by sizeOf v
decreasing_by all_goals exact Value.sizeOf_lt_of_field? _h

/-- The struct type that a value is, as a part of a tag. -/
def StructTag.ofValue (v : Value) : Except WriteFault StructTag :=
  match checkObject v with
  | .error fault => .error fault
  | .ok () =>
    match StructName.ofValue v with
    | .error fault => .error fault
    | .ok name =>
      match _h : itemsOfValue (v.field? tagFields.params) with
      | .error fault => .error fault
      | .ok items => (TypeTag.allOfValues items).map (StructTag.mk name)
termination_by sizeOf v
decreasing_by exact itemsOfValue_lt _h

/-- The tags that values are. -/
def TypeTag.allOfValues (vs : List Value) : Except WriteFault (List TypeTag) :=
  match vs with
  | [] => .ok []
  | v :: rest =>
    match TypeTag.ofValue v with
    | .error fault => .error fault
    | .ok tag => (TypeTag.allOfValues rest).map (tag :: ·)
termination_by sizeOf vs

end

/-- Whether the digits of an address can be taken at all, which a struct type on its own needs. -/
def StructTag.checkAddressDigits (v : Value) : Except WriteFault Unit :=
  match v.field? tagFields.address with
  | some (.text s) =>
    if (Address.normalDigits s).all Text.isHexDigit then .ok ()
    else .error (.badHex (Address.normalize s))
  | _ => .ok ()

/-- The struct type that a value is, on its own. -/
def StructTag.ofWholeValue (v : Value) : Except WriteFault StructTag := do
  checkObject v
  StructTag.checkAddressDigits v
  StructTag.ofValue v

namespace Argument

/-- The names of the variants of arguments. -/
def variantNames : List Text :=
  [Width.u8.label, Width.u64.label, Width.u128.label, addressField, bytesField, boolField]

/-- The byte that a value is. What is no numeral passes for zero, and of a number in range what lies
behind the point is dropped. -/
def byteOfValue (v : Value) : Except WriteFault Int :=
  match v.toNumber with
  | .error .notANumeral => .ok 0
  | .error fault => .error (.ofNumberFault fault)
  | .ok x =>
    if x.isNegative || x.exceeds Width.u8.max then
      .error (v.toText?.elim .unusable (.outOfRange .u8))
    else .ok x.truncate

/-- The integer that a value is, of a width of more than one byte. -/
def wideOfValue (width : Width) (v : Value) : Except WriteFault Int :=
  match v.toWhole with
  | .error fault => .error (.ofNumberFault fault)
  | .ok n =>
    if n < 0 || (width.max : Int) < n then .error (.outOfRange width (Text.ofInt n)) else .ok n

/-- The integer of the given width that a value is. -/
def integerOfValue : Width → Value → Except WriteFault Int
  | .u8, v => byteOfValue v
  | width, v => wideOfValue width v

/-- The bytes that a value is. -/
def bytesOfValue : Value → Except WriteFault Bytes
  | .bytes raw => .ok raw
  | .list items => items.mapM fun item => do
      let n ← byteOfValue item
      return UInt8.ofNat n.toNat
  | v => .error (listFault (some v))

/-- The truth value that a value is. -/
def boolOfValue : Value → Except WriteFault Bool
  | .bool b => .ok b
  | v => .error (.notABool (Value.typeName (some v)))

/-- The argument that a value is. -/
def ofValue (v : Value) : Except WriteFault Argument := do
  checkVariants .argument variantNames v
  match v.field? Width.u8.label, v.field? Width.u64.label, v.field? Width.u128.label with
  | some n, _, _ => return integer .u8 (← integerOfValue .u8 n)
  | none, some n, _ => return integer .u64 (← integerOfValue .u64 n)
  | none, none, some n => return integer .u128 (← integerOfValue .u128 n)
  | none, none, none =>
    match v.field? addressField, v.field? bytesField, v.field? boolField with
    | some s, _, _ => return address (← Address.ofValue (some s))
    | none, some b, _ => return bytes (← bytesOfValue b)
    | none, none, some b => return bool (← boolOfValue b)
    | none, none, none => .error .unusable

end Argument

namespace Address

/-- The binary form of an address given by a value. -/
def serialize (v : Value) : Except WriteFault Bytes := (ofValue (some v)).map toBytes

end Address

namespace StructTag

/-- The binary form of a struct type given by a value. -/
def serialize (v : Value) : Except WriteFault Bytes := (ofWholeValue v).map encode

end StructTag

namespace Argument

/-- The binary form of an argument given by a value. -/
def serialize (v : Value) : Except WriteFault Bytes := (ofValue v).map encode

end Argument

namespace TypeTag

/-- The binary form of a tag given by a value. A text is parsed, with the options that hold unless
others are given, and what the parser logs is logged. -/
def serialize : Value → Outcome WriteFault Bytes
  | .text input =>
    match parse none input with
    | ⟨.ok tag, log⟩ => ⟨.ok tag.encode, log⟩
    | ⟨.error failure, log⟩ => ⟨.error (.failed failure), log⟩
  | v => ⟨(ofValue v).map encode, []⟩

/-- The text of the tag at the front of the bytes, with addresses at full width. -/
def textOfBinary (bytes : Bytes) : Except ReadFault Text :=
  (readBinary bytes).map fun (tag, _) => tag.render .full

end TypeTag

end MoveText
