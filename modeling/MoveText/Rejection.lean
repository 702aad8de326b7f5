import MoveText.Number.Shortest
import MoveText.Token

/-!
# Rejections

A `Rejection` is the cause for which a text, or a list of tokens, is turned down. Its `category` is
what a caller can tell apart, and `message` is the wording. The causes that concern a token also
name what was expected and what was there.
-/

namespace MoveText

/-- Why no token could be read. -/
inductive LexicalCause where
  | unrecognized
  | badSuffix
  deriving DecidableEq, Repr

/-- What a place in the grammar calls for. -/
inductive Wanted where
  | string
  | typeTag
  | argument
  deriving DecidableEq, Repr

/-- The name of what is called for. -/
def Wanted.label : Wanted → Text
  | string => "string".toList
  | typeTag => "type tag".toList
  | argument => "transaction argument".toList

/-- Why a text or a list of tokens is turned down. -/
inductive Rejection where
  /-- No token can be read at this offset. -/
  | lexical (cause : LexicalCause) (offset : Int)
  /-- The token list ended without its closing token. -/
  | outOfTokens
  /-- A particular token had to stand here. -/
  | mismatch (expected actual : Token)
  /-- A name had to stand here. -/
  | notAName (actual : Token)
  /-- Nothing of the wanted sort starts with this token. -/
  | unexpected (wanted : Wanted) (actual : Token)
  /-- The tag would be nested as deep as the limit. -/
  | tooDeep (depth limit : Int)
  /-- The text is not an address literal. -/
  | badAddress (literal : Text)
  /-- The address literal has too many digits. -/
  | longAddress (literal : Text)
  /-- The text is not an identifier. -/
  | badIdentifier (name : Text)
  /-- The number does not fit its width. -/
  | overflow (width : Width) (digits : Text)
  /-- The byte string has half a byte too many. -/
  | oddBytes (digits : Text)
  /-- The byte string holds a character that is no digit. -/
  | badBytes (digits : Text)
  /-- The text of an integer token is no numeral. -/
  | badNumeral (digits : Text)
  /-- The token stands for a text, but has none. -/
  | noText (token : Token)
  deriving DecidableEq, Repr

/-- The sorts of rejections that a caller can tell apart. -/
inductive RejectionCategory where
  | lexical
  | grammatical
  | nesting
  | semantic
  | numeral
  | bareToken
  deriving DecidableEq, Repr

/-- The name of a sort of rejections. -/
def RejectionCategory.label : RejectionCategory → Text
  | lexical => "LexError".toList
  | grammatical => "ParseError".toList
  | nesting => "NestingLimitError".toList
  | semantic => "SemanticError".toList
  | numeral => "SyntaxError".toList
  | bareToken => "TypeError".toList

namespace Rejection

/-- The sort that a rejection belongs to. -/
def category : Rejection → RejectionCategory
  | lexical .. => .lexical
  | outOfTokens | mismatch .. | notAName .. | unexpected .. => .grammatical
  | tooDeep .. => .nesting
  | badAddress .. | longAddress .. | badIdentifier .. | overflow .. | oddBytes .. | badBytes .. =>
    .semantic
  | badNumeral .. => .numeral
  | noText .. => .bareToken

/-- What had to stand at the offending token. -/
def expected? : Rejection → Option Text
  | mismatch expected _ => some expected.describe
  | notAName _ => some "name".toList
  | unexpected wanted _ => some wanted.label
  | _ => none

/-- The offending token, as messages show it. -/
def actual? : Rejection → Option Text
  | mismatch _ actual | notAName actual | unexpected _ actual => some actual.describe
  | _ => none

/-- The wording of a rejection. -/
def message : Rejection → Text
  | lexical .unrecognized offset =>
    "unrecognized token at offset ".toList ++ Binary64.textOfInt offset
  | lexical .badSuffix offset => "invalid suffix at offset ".toList ++ Binary64.textOfInt offset
  | outOfTokens => "out of tokens, this should not happen".toList
  | mismatch expected actual =>
    "expected token ".toList ++ expected.describe ++ ", got ".toList ++ actual.describe
  | notAName actual => "expected name, got ".toList ++ actual.describe
  | unexpected wanted actual =>
    "unexpected token ".toList ++ actual.describe ++ ", expected ".toList ++ wanted.label
  | tooDeep depth _ =>
    "Exceeded TypeTag nesting limit during parsing: ".toList ++ Binary64.textOfInt depth
  | badAddress literal => "invalid address literal: ".toList ++ literal
  | longAddress literal =>
    "address literal ".toList ++ literal ++ " is longer than 32 bytes".toList
  | badIdentifier name => "invalid identifier '".toList ++ name ++ ['\'']
  | overflow width digits =>
    "number too large to fit in ".toList ++ width.label ++ ": ".toList ++ digits
  | oddBytes digits => "odd number of digits in byte string: x\"".toList ++ digits ++ ['"']
  | badBytes digits => "invalid hex character in byte string: x\"".toList ++ digits ++ ['"']
  | badNumeral digits => "not an integer: ".toList ++ digits
  | noText token => "no text in token ".toList ++ token.describe

/-- Whether the rejection can be one of an input. Only a token made by hand can hold a text that is
no numeral, or lack a text. -/
def concernsInput (rejection : Rejection) : Bool :=
  match rejection.category with
  | .numeral | .bareToken => false
  | _ => true

end Rejection

end MoveText
