import MoveText.Rejection
import MoveText.Text.Ascii

/-!
# Identifiers

A module or type name starts with a letter, or with an underscore and then at least one more
character, and goes on with letters, digits and underscores.
-/

namespace MoveText.Identifier

/-- Whether a text is a single character that may stand in an identifier. -/
def isChar : Text → Bool
  | [c] => Text.isNameChar c
  | _ => false

/-- Whether a text is an identifier. -/
def isValid : Text → Bool
  | [] => false
  | c :: rest => (c.isAlpha || (c == '_' && !rest.isEmpty)) && rest.all Text.isNameChar

/-- The text itself if it is an identifier. -/
def check (s : Text) : Except Rejection Text :=
  if isValid s then .ok s else .error (.badIdentifier s)

/-- The text given, if it is an identifier. Where none is given, the name is left empty. -/
def checkGiven : Option Text → Except Rejection Text
  | none => .ok []
  | some s => check s

end MoveText.Identifier
