import MoveText.Rejection
import MoveText.Text.Hex
import MoveText.Text.Lowercase

/-!
# Account addresses

An address has 32 bytes. Its normal form is `0x` and 64 small hexadecimal digits, its short form
has no leading zeros; both are made from any text by lowercasing it, dropping one `0x` in front and
filling up with zeros, whether or not the outcome denotes an address. `isNormal` tells which texts
are normal forms, and `ofLiteral` accepts `0x` with one to 64 digits of either case.
-/

namespace MoveText.Address

/-- The bytes of an address. -/
def byteCount : Nat := 32

/-- The digits of an address at full width. -/
def digitCount : Nat := 64

/-- The text without the marker `0x` in front. -/
def dropMarker : Text → Text
  | '0' :: 'x' :: digits => digits
  | s => s

/-- What follows the marker in the normal form. -/
def normalDigits (s : Text) : Text :=
  Text.padLeft digitCount '0' (dropMarker (Text.lowercase s))

/-- The normal form. -/
def normalize (s : Text) : Text := '0' :: 'x' :: normalDigits s

/-- The normal form without leading zeros, of which one is kept if nothing else is there. -/
def shorten (s : Text) : Text :=
  match (normalDigits s).dropWhile (· == '0') with
  | [] => ['0', 'x', '0']
  | digits => '0' :: 'x' :: digits

/-- Whether a text is the normal form of an address. -/
def isNormal : Text → Bool
  | '0' :: 'x' :: digits => digits.all Text.isLowerHexDigit && digits.length == digitCount
  | _ => false

/-- The digits of an address literal, however many. -/
def literalDigits? : Text → Option Text
  | '0' :: marker :: digits =>
    if (marker == 'x' || marker == 'X') && !digits.isEmpty && digits.all Text.isHexDigit then
      some digits
    else none
  | _ => none

/-- The normal form of an address literal. -/
def ofLiteral (s : Text) : Except Rejection Text :=
  match literalDigits? s with
  | none => .error (.badAddress s)
  | some digits =>
    if digitCount < digits.length then .error (.longAddress s) else .ok (normalize digits)

/-- The bytes of an address whose normal form is `isNormal`. -/
def toBytes (s : Text) : Bytes := Text.bytesOfHex (normalDigits s)

/-- The normal form of an address given by its bytes. -/
def ofBytes (bytes : Bytes) : Text := normalize (Text.hexOfBytes bytes)

end MoveText.Address
