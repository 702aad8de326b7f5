import MoveText.Argument
import MoveText.Number.Numeral
import MoveText.Token.Reader

/-!
# The grammar of transaction arguments

`Argument.read` reads one argument, which is one token. An integer must not exceed its width, a
byte string has an even number of digits, and an address literal at most 64.
-/

namespace MoveText.Argument

open TokenReader

/-- The integer of an integer token. Only its upper bound is checked. -/
def ofNumeral (width : Width) (digits : Text) : Except Rejection Argument :=
  match Text.readInteger? digits with
  | none => .error (.badNumeral digits)
  | some value =>
    if (width.max : Int) < value then .error (.overflow width digits)
    else .ok (integer width value)

/-- The bytes of a byte string token. -/
def ofHex (digits : Text) : Except Rejection Argument :=
  if Text.units digits % 2 ≠ 0 then .error (.oddBytes digits)
  else if digits.all Text.isHexDigit then .ok (bytes (Text.bytesOfHex digits))
  else .error (.badBytes digits)

/-- The argument that a token stands for. -/
def ofToken (token : Token) : Except Rejection Argument :=
  match token.kind with
  | .integer width => do ofNumeral width (← textOf token)
  | .keyword (.truth value) => .ok (bool value)
  | .address => do return address (← Address.ofLiteral (← textOf token))
  | .bytes => do ofHex (← textOf token)
  | _ => .error (.unexpected .argument token)

/-- One argument. -/
def read : TokenReader Argument := do
  let token ← next
  ofExcept (ofToken token)

end MoveText.Argument
