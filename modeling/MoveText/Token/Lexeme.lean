import MoveText.Rejection
import MoveText.Text.Ascii
import MoveText.Text.Utf8

/-!
# Lexemes

A lexeme is a token together with its spelling and the text that follows it. `Lexeme.read` takes
the longest lexeme off the front of a text; `Token.ofText` does so until nothing is left. A text
that cannot be read is turned down with the offset, in UTF-16 units, where reading stopped.
-/

namespace MoveText

/-- A token, the characters that spell it, and the text after them. -/
structure Lexeme where
  token : Token
  spelling : Text
  rest : Text
  deriving DecidableEq, Repr

/-- A lexeme, or why there is none and how far into the text that shows. -/
abbrev LexemeResult := Except (LexicalCause × Nat) Lexeme

namespace Lexeme

/-- A mark of fixed spelling. -/
def mark (token : Token) (spelling rest : Text) : LexemeResult := .ok ⟨token, spelling, rest⟩

/-- An address literal, whose marker `0x` has been read. The token shows the marker with a small
letter and the digits as written. -/
def readAddress (marker : Char) (s : Text) : LexemeResult :=
  let digits := s.takeWhile Text.isHexDigit
  if digits.isEmpty then .error (.unrecognized, 0)
  else .ok ⟨⟨.address, some ('0' :: 'x' :: digits)⟩, '0' :: marker :: digits,
    s.dropWhile Text.isHexDigit⟩

/-- A number: digits and the letters and digits glued to them, which must name a width. Without
them the width is `u64`. The token holds the digits, of which there may be none. -/
def readNumber (s : Text) : LexemeResult :=
  let digits := s.takeWhile Char.isDigit
  let rest := s.dropWhile Char.isDigit
  let suffix := rest.takeWhile Char.isAlphanum
  if suffix.isEmpty then .ok ⟨⟨.integer .u64, some digits⟩, digits, rest⟩
  else
    match Width.ofLabel? suffix with
    | some width =>
      .ok ⟨⟨.integer width, some digits⟩, digits ++ suffix, rest.dropWhile Char.isAlphanum⟩
    | none => .error (.badSuffix, digits.length)

/-- A byte string, whose opening letter and quote have been read. The body ends at the next quote
and holds only characters of the class `isBody`; the token shows it as digits. -/
def readBytes (opener : Char) (isBody : Char → Bool) (digits : Text → Text) (s : Text) :
    LexemeResult :=
  let inBody := fun c => c != '"' && isBody c
  let body := s.takeWhile inBody
  match s.dropWhile inBody with
  | '"' :: rest =>
    .ok ⟨⟨.bytes, some (digits body)⟩, opener :: '"' :: (body ++ ['"']), rest⟩
  | _ => .error (.unrecognized, 2 + body.length)

/-- A run of white space. -/
def readBlanks (s : Text) : LexemeResult :=
  let blanks := s.takeWhile Text.isBlank
  .ok ⟨⟨.whitespace, some blanks⟩, blanks, s.dropWhile Text.isBlank⟩

/-- A keyword or name. -/
def readWord (s : Text) : LexemeResult :=
  let word := s.takeWhile Text.isNameChar
  .ok ⟨Token.ofWord word, word, s.dropWhile Text.isNameChar⟩

/-- The lexeme at the front of a text. -/
def read : Text → LexemeResult
  | '<' :: rest => mark .lt ['<'] rest
  | '>' :: rest => mark .gt ['>'] rest
  | ',' :: rest => mark .comma [','] rest
  | ':' :: ':' :: rest => mark .colonColon [':', ':'] rest
  | '0' :: 'x' :: rest => readAddress 'x' rest
  | '0' :: 'X' :: rest => readAddress 'X' rest
  | 'b' :: '"' :: rest =>
    readBytes 'b' Text.isAscii (fun body => Text.hexOfBytes (Text.encodeUtf8 body)) rest
  | 'x' :: '"' :: rest => readBytes 'x' Text.isHexDigit id rest
  | c :: rest =>
    if c.isDigit then readNumber (c :: rest)
    else if Text.isBlank c then readBlanks (c :: rest)
    else if c.isAlpha then readWord (c :: rest)
    else .error (.unrecognized, 0)
  | [] => .error (.unrecognized, 0)

end Lexeme

namespace Token

/-- The tokens of a text that starts at the given offset. A round takes at least one character, so
as many rounds as there are characters are enough. -/
def ofTextWithin : Nat → Nat → Text → Except Rejection (List Token)
  | _, _, [] => .ok []
  | 0, _, _ :: _ => .ok []
  | rounds + 1, offset, c :: rest =>
    match Lexeme.read (c :: rest) with
    | .error (cause, inner) => .error (.lexical cause (offset + inner : Nat))
    | .ok lexeme =>
      match ofTextWithin rounds (offset + Text.units lexeme.spelling) lexeme.rest with
      | .error rejection => .error rejection
      | .ok tokens => .ok (lexeme.token :: tokens)

/-- The tokens of a text, white space included. -/
def ofText (s : Text) : Except Rejection (List Token) := ofTextWithin s.length 0 s

/-- Shifts what was found at `start` to offsets of the whole text, and measures the spelling. -/
def measured (start : Int) : LexemeResult → Except Rejection (Token × Nat)
  | .error (cause, inner) => .error (.lexical cause (start + inner))
  | .ok lexeme => .ok (lexeme.token, Text.units lexeme.spelling)

/-- The text from an offset on, unless the offset is negative, past the end, or inside a
character. -/
def textFrom? (s : Text) (start : Int) : Option Text :=
  if start < 0 then none else Text.cut? start.toNat s

/-- The token at an offset and the units it takes; none at the end of the text or past it. -/
def at? (s : Text) (start : Int) : Except Rejection (Option (Token × Nat)) :=
  if (Text.units s : Int) ≤ start then .ok none
  else
    match textFrom? s start with
    | none => .error (.lexical .unrecognized start)
    | some rest => (measured start (Lexeme.read rest)).map some

/-- The number at an offset and the units it takes. Where no digit stands, it has none. -/
def numberAt (s : Text) (start : Int) : Except Rejection (Token × Nat) :=
  measured start (Lexeme.readNumber ((textFrom? s start).getD []))

/-- The tokens that the grammar sees: those of the text but for white space, and the end. -/
def wordsOfText (s : Text) : Except Rejection (List Token) :=
  match ofText s with
  | .error rejection => .error rejection
  | .ok tokens => .ok (tokens.filter (fun t => !t.isWhitespace) ++ [eof])

end Token

end MoveText
