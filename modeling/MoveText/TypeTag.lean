import MoveText.Address
import MoveText.Identifier
import MoveText.TypeTag.Primitive

/-!
# Type tags

A type tag is a primitive type, a vector of a type, or a struct type: its name, made of an address,
a module and a type name, and its type parameters. `depth` counts how deep the innermost part lies.
-/

namespace MoveText

/-- The name of a struct type. -/
structure StructName where
  address : Text
  moduleName : Text
  typeName : Text
  deriving DecidableEq, Repr

/-- A type. -/
inductive TypeTag where
  | primitive (type : Primitive)
  | vector (element : TypeTag)
  | struct (name : StructName) (params : List TypeTag)
  deriving Repr

/-- A struct type on its own. -/
structure StructTag where
  name : StructName
  params : List TypeTag
  deriving Repr

namespace StructName

/-- A name from an address literal and two identifiers, looked at in this order. An identifier that
is not given is left empty. -/
def create (address : Text) (moduleName typeName : Option Text) : Except Rejection StructName := do
  let address ← Address.ofLiteral address
  let moduleName ← Identifier.checkGiven moduleName
  let typeName ← Identifier.checkGiven typeName
  return { address, moduleName, typeName }

end StructName

namespace TypeTag

mutual

/-- How deep the innermost part of a tag lies; a tag without parts has depth 0. -/
def depth : TypeTag → Nat
  | primitive _ => 0
  | vector element => depth element + 1
  | struct _ params => depthBelow params

/-- The depth of what has the given parameters. -/
def depthBelow : List TypeTag → Nat
  | [] => 0
  | param :: params => max (depth param + 1) (depthBelow params)

end

mutual

/-- Equality of tags is decidable. -/
def decEq : (s t : TypeTag) → Decidable (s = t)
  | primitive p, primitive q =>
    if h : p = q then isTrue (by rw [h]) else isFalse (by simpa using h)
  | vector s, vector t =>
    match decEq s t with
    | isTrue h => isTrue (by rw [h])
    | isFalse h => isFalse (by simpa using h)
  | struct m ps, struct n qs =>
    if h : m = n then
      match decEqList ps qs with
      | isTrue h' => isTrue (by rw [h, h'])
      | isFalse h' => isFalse (by simp [h'])
    else isFalse (by simp [h])
  | primitive _, vector _ | primitive _, struct _ _ | vector _, primitive _
  | vector _, struct _ _ | struct _ _, primitive _ | struct _ _, vector _ => isFalse (by simp)

/-- Equality of lists of tags is decidable. -/
def decEqList : (ss ts : List TypeTag) → Decidable (ss = ts)
  | [], [] => isTrue rfl
  | s :: ss, t :: ts =>
    match decEq s t, decEqList ss ts with
    | isTrue h, isTrue h' => isTrue (by rw [h, h'])
    | isFalse h, _ => isFalse (by simp [h])
    | _, isFalse h' => isFalse (by simp [h'])
  | [], _ :: _ | _ :: _, [] => isFalse (by simp)

end

instance : DecidableEq TypeTag := decEq

end TypeTag

deriving instance DecidableEq for StructTag

namespace StructTag

/-- The struct type as a type. -/
def toTypeTag (tag : StructTag) : TypeTag := .struct tag.name tag.params

end StructTag

end MoveText
