import MoveText.Text.Quoted
import MoveText.TypeTag.Primitive
import MoveText.Width

/-!
# Tokens

A token has a kind and, where the kind alone does not say it, the text it stands for. Two tokens
are the same when both agree; a missing value is not an empty one. `describe` is how messages
show a token: the kind, with the quoted value in parentheses if there is one.
-/

namespace MoveText

/-- A word with a meaning of its own. -/
inductive Keyword where
  | primitive (type : Primitive)
  | vector
  | truth (value : Bool)
  deriving DecidableEq, Repr

namespace Keyword

/-- The nine keywords. -/
def all : List Keyword :=
  Primitive.all.map primitive ++ [vector, truth true, truth false]

/-- How the keyword is spelled. -/
def spelling : Keyword → Text
  | primitive type => type.label
  | vector => "vector".toList
  | truth true => "true".toList
  | truth false => "false".toList

/-- The keyword with the given spelling. -/
def ofSpelling? (s : Text) : Option Keyword := all.find? (·.spelling == s)

end Keyword

/-- The kinds of tokens. -/
inductive TokenKind where
  | keyword (word : Keyword)
  | colonColon
  | lt
  | gt
  | comma
  | eof
  | whitespace
  | name
  | address
  | integer (width : Width)
  | bytes
  deriving DecidableEq, Repr

namespace TokenKind

/-- Every kind of token. -/
def all : List TokenKind :=
  Keyword.all.map keyword ++ [colonColon, lt, gt, comma, eof, whitespace, name, address,
    integer .u8, integer .u64, integer .u128, bytes]

/-- How messages name the kind. -/
def label : TokenKind → Text
  | keyword (.primitive .bool) => "BoolType".toList
  | keyword (.primitive .u8) => "U8Type".toList
  | keyword (.primitive .u64) => "U64Type".toList
  | keyword (.primitive .u128) => "U128Type".toList
  | keyword (.primitive .address) => "AddressType".toList
  | keyword (.primitive .signer) => "SignerType".toList
  | keyword .vector => "VectorType".toList
  | keyword (.truth true) => "True".toList
  | keyword (.truth false) => "False".toList
  | colonColon => "ColonColon".toList
  | lt => "Lt".toList
  | gt => "Gt".toList
  | comma => "Comma".toList
  | eof => "EOF".toList
  | whitespace => "Whitespace".toList
  | name => "Name".toList
  | address => "Address".toList
  | integer .u8 => "U8".toList
  | integer .u64 => "U64".toList
  | integer .u128 => "U128".toList
  | bytes => "Bytes".toList

/-- The kind with the given name. -/
def ofLabel? (s : Text) : Option TokenKind := all.find? (·.label == s)

end TokenKind

/-- A token: its kind, and the text it stands for if it has one. -/
structure Token where
  kind : TokenKind
  value : Option Text := none
  deriving DecidableEq, Repr

namespace Token

/-- The mark `<`. -/
def lt : Token := ⟨.lt, none⟩

/-- The mark `>`. -/
def gt : Token := ⟨.gt, none⟩

/-- The mark `,`. -/
def comma : Token := ⟨.comma, none⟩

/-- The mark `::`. -/
def colonColon : Token := ⟨.colonColon, none⟩

/-- The end of the input. -/
def eof : Token := ⟨.eof, none⟩

/-- The token of a word: a keyword if it is one, else a name. -/
def ofWord (word : Text) : Token :=
  match Keyword.ofSpelling? word with
  | some k => ⟨.keyword k, none⟩
  | none => ⟨.name, some word⟩

/-- Whether the token is white space. -/
def isWhitespace (t : Token) : Bool := t.kind == .whitespace

/-- The text the token stands for, empty if it has none. -/
def text (t : Token) : Text := t.value.getD []

/-- How messages show the token. -/
def describe (t : Token) : Text :=
  match t.value with
  | none => t.kind.label
  | some value => t.kind.label ++ '(' :: (Text.quoted value ++ [')'])

end Token

end MoveText
