import MoveText.Text.Ascii

/-!
# Bytes as hexadecimal digits

`hexOfBytes` writes two small digits for each byte, high half first; `bytesOfHex` reads digits of
either case, two at a time.
-/

namespace MoveText

/-- A string of bytes. -/
abbrev Bytes := List UInt8

namespace Text

/-- The value of a hexadecimal digit; of no use for other characters. -/
def hexDigitValue (c : Char) : Nat :=
  if c.isDigit then c.toNat - 48
  else if 'a' ≤ c then c.toNat - 87
  else c.toNat - 55

/-- The number that a row of digits denotes to base `base`, the most significant digit first. -/
def digitsValue (base : Nat) (digits : Text) : Nat :=
  digits.foldl (fun value c => base * value + hexDigitValue c) 0

/-- The two digits of one byte. -/
def hexOfByte (b : UInt8) : Text :=
  [Nat.digitChar (b.toNat / 16), Nat.digitChar (b.toNat % 16)]

/-- The digits of a byte string. -/
def hexOfBytes (bytes : Bytes) : Text := bytes.flatMap hexOfByte

/-- The bytes that pairs of digits denote. A last digit without a partner is left out. -/
def bytesOfHex : Text → Bytes
  | high :: low :: rest =>
    UInt8.ofNat (16 * hexDigitValue high + hexDigitValue low) :: bytesOfHex rest
  | _ => []

end Text

end MoveText
