import MoveText.Identifier
import MoveText.Value

/-!
# Unchecked values as identifiers

Any value, and even an absent one, is looked at as the text it turns into, if it has one. A value
that passes is handed on as it is.
-/

namespace MoveText

/-- Why nothing comes of a value. -/
inductive ViewFault where
  /-- It is turned down. -/
  | rejected (rejection : Rejection)
  /-- It is of a sort that cannot be looked at. -/
  | unusable
  deriving DecidableEq, Repr

namespace Identifier

/-- Whether a value turns into an identifier. -/
def isValidView? (v : Option Value) : Option Bool := (Value.optionText? v).map isValid

/-- The value itself if it turns into an identifier. -/
def checkView (v : Option Value) : Except ViewFault (Option Value) :=
  match Value.optionText? v with
  | none => .error .unusable
  | some s => if isValid s then .ok v else .error (.rejected (.badIdentifier s))

/-- Whether a value turns into a character that may stand in an identifier. An underscore has to be
given as a text. -/
def isCharView? (v : Option Value) : Option Bool :=
  match v with
  | some (.text s) => some (isChar s)
  | v => (Value.optionText? v).map fun s => s != ['_'] && isChar s

end Identifier

end MoveText
