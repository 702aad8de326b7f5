import MoveText.Text.Hex

/-!
# UTF-8

`encodeUtf8` writes the shortest form of each character. `decodeUtf8` reads any bytes: an
ill-formed stretch becomes U+FFFD, one for each longest run of bytes that begins a well-formed
character and is cut short, and one for each byte that begins none. `decodeText` also drops one
byte order mark from the front.
-/

namespace MoveText

namespace Text

/-- What stands for an ill-formed stretch. -/
def replacement : Char := '\ufffd'

/-- The bytes of one character. -/
def encodeUtf8Char (c : Char) : Bytes :=
  let n := c.toNat
  if n < 0x80 then [UInt8.ofNat n]
  else if n < 0x800 then [UInt8.ofNat (0xc0 + n / 64), UInt8.ofNat (0x80 + n % 64)]
  else if n < 0x10000 then
    [UInt8.ofNat (0xe0 + n / 4096), UInt8.ofNat (0x80 + n / 64 % 64), UInt8.ofNat (0x80 + n % 64)]
  else
    [UInt8.ofNat (0xf0 + n / 262144), UInt8.ofNat (0x80 + n / 4096 % 64),
      UInt8.ofNat (0x80 + n / 64 % 64), UInt8.ofNat (0x80 + n % 64)]

/-- The bytes of a text. -/
def encodeUtf8 (s : Text) : Bytes := s.flatMap encodeUtf8Char

/-- A byte that continues a character. -/
def isTrail (b : UInt8) : Bool := 0x80 ≤ b.toNat && b.toNat ≤ 0xbf

/-- The six bits that a continuing byte adds to the bits read before it. -/
def addTrail (bits : Nat) (b : UInt8) : Nat := bits * 64 + (b.toNat - 0x80)

/-- Whether `b` may follow `lead` in a character of three bytes. Neither an overlong form nor a
surrogate is well formed. -/
def isSecondOfThree (lead b : UInt8) : Bool :=
  isTrail b && (lead.toNat != 0xe0 || 0xa0 ≤ b.toNat) && (lead.toNat != 0xed || b.toNat ≤ 0x9f)

/-- Whether `b` may follow `lead` in a character of four bytes. Neither an overlong form nor a
number above U+10FFFF is well formed. -/
def isSecondOfFour (lead b : UInt8) : Bool :=
  isTrail b && (lead.toNat != 0xf0 || 0x90 ≤ b.toNat) && (lead.toNat != 0xf4 || b.toNat ≤ 0x8f)

/-- The text of any bytes. -/
def decodeUtf8 : Bytes → Text
  | [] => []
  | lead :: rest =>
    if lead.toNat < 0x80 then Char.ofNat lead.toNat :: decodeUtf8 rest
    else if 0xc2 ≤ lead.toNat && lead.toNat ≤ 0xdf then
      match rest with
      | [] => [replacement]
      | b₁ :: rest₁ =>
        if isTrail b₁ then
          Char.ofNat (addTrail (lead.toNat - 0xc0) b₁) :: decodeUtf8 rest₁
        else replacement :: decodeUtf8 (b₁ :: rest₁)
    else if 0xe0 ≤ lead.toNat && lead.toNat ≤ 0xef then
      match rest with
      | [] => [replacement]
      | b₁ :: rest₁ =>
        if isSecondOfThree lead b₁ then
          match rest₁ with
          | [] => [replacement]
          | b₂ :: rest₂ =>
            if isTrail b₂ then
              Char.ofNat (addTrail (addTrail (lead.toNat - 0xe0) b₁) b₂) :: decodeUtf8 rest₂
            else replacement :: decodeUtf8 (b₂ :: rest₂)
        else replacement :: decodeUtf8 (b₁ :: rest₁)
    else if 0xf0 ≤ lead.toNat && lead.toNat ≤ 0xf4 then
      match rest with
      | [] => [replacement]
      | b₁ :: rest₁ =>
        if isSecondOfFour lead b₁ then
          match rest₁ with
          | [] => [replacement]
          | b₂ :: rest₂ =>
            if isTrail b₂ then
              match rest₂ with
              | [] => [replacement]
              | b₃ :: rest₃ =>
                if isTrail b₃ then
                  Char.ofNat (addTrail (addTrail (addTrail (lead.toNat - 0xf0) b₁) b₂) b₃) ::
                    decodeUtf8 rest₃
                else replacement :: decodeUtf8 (b₃ :: rest₃)
            else replacement :: decodeUtf8 (b₂ :: rest₂)
        else replacement :: decodeUtf8 (b₁ :: rest₁)
    else replacement :: decodeUtf8 rest

/-- The text of a string body: its bytes as UTF-8, less one byte order mark in front. -/
def decodeText (bytes : Bytes) : Text :=
  match decodeUtf8 bytes with
  | '\ufeff' :: rest => rest
  | s => s

end Text

end MoveText
