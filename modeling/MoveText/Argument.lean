import MoveText.Address
import MoveText.Number.Decimal

/-!
# Transaction arguments

An argument is a literal value: an integer of some width, a truth value, an address or a byte
string. `render` writes it as a literal.
-/

namespace MoveText

/-- A literal value. -/
inductive Argument where
  | integer (width : Width) (value : Int)
  | bool (value : Bool)
  | address (value : Text)
  | bytes (value : Bytes)
  deriving DecidableEq, Repr

namespace Argument

/-- A byte string with the given digits as a literal. -/
def byteLiteral (digits : Text) : Text := 'x' :: '"' :: (digits ++ ['"'])

/-- An argument as a literal. -/
def render : Argument → Text
  | integer width value => Text.ofInt value ++ width.label
  | bool true => "true".toList
  | bool false => "false".toList
  | address value => Address.shorten value
  | bytes value => byteLiteral (Text.hexOfBytes value)

end Argument

end MoveText
