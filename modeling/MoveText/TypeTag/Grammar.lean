import MoveText.Token.Reader
import MoveText.TypeTag

/-!
# The grammar of type tags

`TypeTag.read` reads one tag: a primitive type; `vector`, `<`, a tag, `>`; or an address, `::`, a
name, `::`, a name, and, if `<` follows, a comma list of tags up to `>`. A tag that would stand at
the limit depth is turned down before its first token is taken.
-/

namespace MoveText.TypeTag

open TokenReader

/-- Type parameters in angle brackets, or none. -/
def readParams (param : TokenReader TypeTag) : TokenReader (List TypeTag) := do
  if ← nextIs .lt then
    expect .lt
    let params ← commaList param .gt true
    expect .gt
    return params
  else return []

/-- A tag that starts the given number of levels above the limit. -/
def readAbove (limit : Int) : Nat → TokenReader TypeTag
  | 0 => fail (.tooDeep limit limit)
  | levels + 1 => do
    let token ← next
    match token.kind with
    | .keyword (.primitive type) => return primitive type
    | .keyword .vector =>
      expect .lt
      let element ← readAbove limit levels
      expect .gt
      return vector element
    | .address =>
      expect .colonColon
      let moduleName ← structPart
      expect .colonColon
      let typeName ← structPart
      let params ← readParams (readAbove limit levels)
      let address ← ofExcept (textOf token)
      let name ← ofExcept (StructName.create address moduleName typeName)
      return struct name params
    | _ => fail (.unexpected .typeTag token)

/-- A tag that starts at the given depth, each part of which lies one deeper than what it is part
of. All of them must stay above the limit. -/
def read (depth limit : Int) : TokenReader TypeTag :=
  if limit ≤ depth then fail (.tooDeep depth limit) else readAbove limit (limit - depth).toNat

end MoveText.TypeTag
