import MoveText.Token
import MoveText.Value

/-!
# Unchecked values as tokens

A record is looked at as a token by its fields `kind` and `value`, whatever they hold. Other values
have no fields: nothing can be looked up in a null, nor can a value that is no object be asked
whether it has a field. What a token stands for is shown in full by `Value.quoted`, and compared
by `Value.isSame`, to which two lists or two records are never the same.
-/

namespace MoveText

namespace Value

mutual

/-- The value in full, texts between double quotes. An infinity is shown as a null. -/
def quoted : Value → Text
  | null | number (.infinite _) => "null".toList
  | bool true => "true".toList
  | bool false => "false".toList
  | number x => x.toText
  | integer n => Text.ofInt n
  | text s => Text.quoted s
  | bytes b => '[' :: (Text.join [','] (b.map fun x => Text.ofNat x.toNat) ++ [']'])
  | list items => '[' :: (Text.join [','] (quotedItems items) ++ [']'])
  | record fields => '\x7b' :: (Text.join [','] (quotedFields fields) ++ ['\x7d'])

/-- The items of a list in full. -/
def quotedItems : List Value → List Text
  | [] => []
  | item :: items => quoted item :: quotedItems items

/-- The fields of a record in full, each behind its name and a colon. -/
def quotedFields : List (Text × Value) → List Text
  | [] => []
  | (name, v) :: fields => (Text.quoted name ++ ':' :: quoted v) :: quotedFields fields

end

/-- Whether two values that have no parts are the same. The two zeros are. -/
def isSame : Value → Value → Bool
  | null, null => true
  | bool a, bool b => a == b
  | number x, number y => x == y || (x.toInt? == some 0 && y.toInt? == some 0)
  | integer m, integer n => m == n
  | text s, text t => s == t
  | _, _ => false

/-- Whether two values that may be absent are the same. -/
def isSameOption : Option Value → Option Value → Bool
  | none, none => true
  | some v, some w => v.isSame w
  | _, _ => false

/-- Whether the value is a null. -/
def isNull : Value → Bool
  | null => true
  | _ => false

end Value

namespace Token

/-- The field that holds the kind of a token. -/
def kindName : Text := "kind".toList

/-- The field that holds what a token stands for. -/
def valueName : Text := "value".toList

/-- Whether a value stands for white space. -/
def isWhitespaceView? (v : Value) : Option Bool :=
  if v.isNull then none
  else some (Value.isSameOption (v.field? kindName) (some (.text TokenKind.whitespace.label)))

/-- Whether two values stand for the same token. What they stand for matters only if they are of
one kind. -/
def isSameView? (v w : Value) : Option Bool :=
  if v.isNull || w.isNull then none
  else if !Value.isSameOption (v.field? kindName) (w.field? kindName) then some false
  else if v.isObject && w.isObject then
    some (Value.isSameOption (v.field? valueName) (w.field? valueName))
  else none

/-- How messages show the token that a value stands for. -/
def describeView? (v : Value) : Option Text :=
  if v.isObject then do
    let kind ← Value.optionText? (v.field? kindName)
    match v.field? valueName with
    | none => return kind
    | some value => return kind ++ '(' :: (value.quoted ++ [')'])
  else none

/-- The kind of the token of a word, and the value that it carries. A word may be anything that has
a text, and a name is handed on as it was given. -/
def ofWordView? (word : Option Value) : Option (TokenKind × Option (Option Value)) :=
  (Value.optionText? word).map fun s =>
    match Keyword.ofSpelling? s with
    | some keyword => (.keyword keyword, none)
    | none => (.name, some word)

end Token

end MoveText
