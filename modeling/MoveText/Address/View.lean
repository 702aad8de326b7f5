import MoveText.Address
import MoveText.Value

/-!
# Unchecked values as addresses

Only a text is an address, but whatever is tested for being one has to have a text.
-/

namespace MoveText.Address

/-- Whether a value is the normal form of an address. -/
def isNormalView? : Option Value → Option Bool
  | some (.text s) => some (isNormal s)
  | v => (Value.optionText? v).map fun _ => false

end MoveText.Address
