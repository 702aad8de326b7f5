import MoveText.Number.Binary64
import MoveText.Text.Hex

/-!
# Numerals

`readInteger?` gives the integer that a free-standing numeral denotes. Spaces around it do not
count, no digits at all denote zero, decimal digits may carry a sign, and the markers `0x`, `0o`
and `0b` in either case, which take no sign, announce another base. `readNumber?` reads more
widely: decimal digits may also have a point among, before or after them and an exponent behind
them, and there is a word for infinity. What it reads is rounded.
-/

namespace MoveText.Text

/-- A character that may surround a numeral: white space and line ends of Unicode, and the byte
order mark. -/
def isSpacing (c : Char) : Bool :=
  let n := c.toNat
  (0x09 ≤ n && n ≤ 0x0d) || n == 0x20 || n == 0xa0 || n == 0x1680 || (0x2000 ≤ n && n ≤ 0x200a)
    || n == 0x2028 || n == 0x2029 || n == 0x202f || n == 0x205f || n == 0x3000 || n == 0xfeff

/-- The text without spacing at its ends. -/
def trimSpacing (s : Text) : Text :=
  ((s.dropWhile isSpacing).reverse.dropWhile isSpacing).reverse

/-- The value of a non-empty row of characters that are all digits by the test `isDigit`. -/
def readDigits? (base : Nat) (isDigit : Char → Bool) (s : Text) : Option Nat :=
  if s.isEmpty || !s.all isDigit then none else some (digitsValue base s)

/-- Whether a marker for a base stands in front, and if so the number that the digits behind it
denote, if they denote one. -/
def readMarked? : Text → Option (Option Nat)
  | '0' :: 'x' :: s | '0' :: 'X' :: s => some (readDigits? 16 isHexDigit s)
  | '0' :: 'o' :: s | '0' :: 'O' :: s => some (readDigits? 8 (fun c => '0' ≤ c && c ≤ '7') s)
  | '0' :: 'b' :: s | '0' :: 'B' :: s => some (readDigits? 2 (fun c => c == '0' || c == '1') s)
  | _ => none

/-- Whether a minus sign stands in front, and the text without its sign. -/
def splitSign : Text → Bool × Text
  | '-' :: s => (true, s)
  | '+' :: s => (false, s)
  | s => (false, s)

/-- The integer that decimal digits with a sign or without one denote. -/
def readSigned? (s : Text) : Option Int :=
  let (negative, digits) := splitSign s
  (readDigits? 10 Char.isDigit digits).map fun n => if negative then -(n : Int) else n

/-- The integer that a numeral denotes, if it is one. -/
def readInteger? (s : Text) : Option Int :=
  match trimSpacing s with
  | [] => some 0
  | bare =>
    match readMarked? bare with
    | some found => found.map Int.ofNat
    | none => readSigned? bare

/-- The power of ten that follows decimal digits: zero if nothing does. -/
def readExponent? : Text → Option Int
  | [] => some 0
  | 'e' :: s | 'E' :: s => readSigned? s
  | _ => none

/-- What stands before and after the point, and what follows. -/
def splitPoint (s : Text) : Text × Text × Text :=
  let rest := s.dropWhile Char.isDigit
  match rest with
  | '.' :: rest =>
    (s.takeWhile Char.isDigit, rest.takeWhile Char.isDigit, rest.dropWhile Char.isDigit)
  | rest => (s.takeWhile Char.isDigit, [], rest)

/-- The number that decimal digits denote, which may have a sign, a point and an exponent. -/
def readDecimal? (s : Text) : Option Binary64 :=
  let (negative, bare) := splitSign s
  if bare = "Infinity".toList then some (.infinite negative)
  else
    let (whole, part, rest) := splitPoint bare
    if whole.isEmpty && part.isEmpty then none
    else
      (readExponent? rest).map fun power =>
        Binary64.ofDecimal negative (digitsValue 10 (whole ++ part)) (power - part.length)

/-- The number that a numeral denotes, if it is one, as nearly as possible. -/
def readNumber? (s : Text) : Option Binary64 :=
  match trimSpacing s with
  | [] => some .zero
  | bare =>
    match readMarked? bare with
    | some found => found.map fun n => Binary64.ofInt n
    | none => readDecimal? bare

end MoveText.Text
