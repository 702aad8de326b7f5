import MoveText.Argument
import MoveText.Binary.Reader
import MoveText.TypeTag

/-!
# Binary forms

The binary form of addresses, type tags, struct types and arguments. Variants are numbered, lists
and strings preceded by their length, integers written with the lowest byte first and addresses as
their 32 bytes. `encode` expects addresses that are so after normalizing, and integers within their
width; `read` reads one value from the front and leaves what follows it.
-/

namespace MoveText

/-- The bytes of a number, the lowest first. -/
def littleEndian : Nat → Nat → Bytes
  | 0, _ => []
  | byteCount + 1, n => UInt8.ofNat (n % 256) :: littleEndian byteCount (n / 256)

/-- The binary form of a string. -/
def encodeString (s : Text) : Bytes :=
  let body := Text.encodeUtf8 s
  Uleb.encode body.length ++ body

namespace Address

/-- An address, in its normal form. -/
def read : ByteReader Text := do
  let bytes ← ByteReader.exactly byteCount
  return ofBytes bytes

end Address

namespace StructName

/-- The binary form of the name of a struct type. -/
def encode (name : StructName) : Bytes :=
  Address.toBytes name.address ++ encodeString name.moduleName ++ encodeString name.typeName

/-- The name of a struct type. -/
def read : ByteReader StructName := do
  let address ← Address.read
  let moduleName ← ByteReader.string
  let typeName ← ByteReader.string
  return { address, moduleName, typeName }

end StructName

namespace TypeTag

/-- The number of vectors in binary form. -/
def vectorIndex : Nat := 6

/-- The number of struct types in binary form. -/
def structIndex : Nat := 7

mutual

/-- The binary form of a tag. -/
def encode : TypeTag → Bytes
  | primitive type => Uleb.encode type.index
  | vector element => Uleb.encode vectorIndex ++ encode element
  | struct name params =>
    Uleb.encode structIndex ++ name.encode ++ Uleb.encode params.length ++ encodeAll params

/-- The binary forms of tags, one after the other. -/
def encodeAll : List TypeTag → Bytes
  | [] => []
  | tag :: tags => encode tag ++ encodeAll tags

end

end TypeTag

namespace StructTag

/-- The binary form of a struct type. -/
def encode (tag : StructTag) : Bytes :=
  tag.name.encode ++ Uleb.encode tag.params.length ++ TypeTag.encodeAll tag.params

/-- A struct type, given how its parameters are read. -/
def readWith (param : ByteReader TypeTag) : ByteReader StructTag := do
  let name ← StructName.read
  let params ← ByteReader.list param
  return { name, params }

end StructTag

namespace TypeTag

/-- A tag. It takes a byte before its parts do, so a bound on the levels below is enough when no
more bytes than that are left. -/
def readBinaryWithin : Nat → ByteReader TypeTag
  | 0 => ByteReader.fail .cutNumber
  | levels + 1 => do
    let index ← ByteReader.number
    match Primitive.all.find? (·.index == index) with
    | some type => return primitive type
    | none =>
      if index = vectorIndex then
        let element ← readBinaryWithin levels
        return vector element
      else if index = structIndex then
        let tag ← StructTag.readWith (readBinaryWithin levels)
        return tag.toTypeTag
      else ByteReader.fail (.unknownVariant index .typeTag)

/-- The tag at the front of the bytes, and what follows it. -/
def readBinary : ByteReader TypeTag := fun bytes => readBinaryWithin bytes.length bytes

end TypeTag

namespace StructTag

/-- The struct type at the front of the bytes, and what follows it. -/
def readBinary : ByteReader StructTag := fun bytes =>
  readWith (TypeTag.readBinaryWithin bytes.length) bytes

end StructTag

namespace Argument

/-- The number of integers of a width in binary form. -/
def integerIndex : Width → Nat
  | .u8 => 0
  | .u64 => 1
  | .u128 => 2

/-- The number of addresses in binary form. -/
def addressIndex : Nat := 3

/-- The number of byte strings in binary form. -/
def bytesIndex : Nat := 4

/-- The number of truth values in binary form. -/
def boolIndex : Nat := 5

/-- The binary form of an argument. -/
def encode : Argument → Bytes
  | integer width value =>
    Uleb.encode (integerIndex width) ++ littleEndian width.byteCount value.toNat
  | bool value => Uleb.encode boolIndex ++ [if value then 1 else 0]
  | address value => Uleb.encode addressIndex ++ Address.toBytes value
  | bytes value => Uleb.encode bytesIndex ++ Uleb.encode value.length ++ value

/-- An integer of the given width. -/
def readUnsigned (width : Width) : ByteReader Argument := do
  let value ← ByteReader.unsigned width.byteCount
  return integer width value

/-- One byte. -/
def readByte : ByteReader UInt8 := do
  let n ← ByteReader.unsigned 1
  return UInt8.ofNat n

/-- A truth value; only the byte 1 is true. -/
def readBool : ByteReader Argument := do
  let b ← readByte
  return bool (b == 1)

/-- The argument at the front of the bytes, and what follows it. -/
def readBinary : ByteReader Argument := do
  let index ← ByteReader.number
  match index with
  | 0 => readUnsigned .u8
  | 1 => readUnsigned .u64
  | 2 => readUnsigned .u128
  | 3 => return address (← Address.read)
  | 4 => return bytes (← ByteReader.list readByte)
  | 5 => readBool
  | _ => ByteReader.fail (.unknownVariant index .argument)

end Argument

end MoveText
