import MoveText.Identifier.View
import MoveText.TypeTag

/-!
# Type tags as records

A tag is handed over as a record whose one field is named for the sort of the tag: the label of a
primitive type, `vector` or `struct`. A struct type is a record of its address, its module, its name
and its type parameters. `TypeTag.toValue` and `StructTag.toValue` are these records. A
`RecordStyle` says what the field of a primitive type holds, whether the name of the sort is
repeated in a field of its own, and how an empty name is shown. A tag that is read from tokens has
an empty name only where a token made by hand lacks its text; the style `sparse` is meant for this.
-/

namespace MoveText

/-- The names of the fields of tags. -/
structure TagFields where
  vector : Text
  struct : Text
  address : Text
  moduleName : Text
  typeName : Text
  params : Text

/-- The fields of a tag that is a vector or a struct type, and those of the struct type. -/
def tagFields : TagFields where
  vector := "vector".toList
  struct := "struct".toList
  address := "address".toList
  moduleName := "module".toList
  typeName := "name".toList
  params := "typeParams".toList

/-- How tags are put as records: what stands in the field of a primitive type, the field that
repeats the name of the sort, if there is one, and what stands for an empty name of a module or
type. -/
structure RecordStyle where
  payload : Value
  sortField : Option Text
  emptyName : Value
  deriving Repr

namespace RecordStyle

/-- Nothing in the field of a primitive type, and no other field. -/
def plain : RecordStyle := ⟨.null, none, .text []⟩

/-- The plain form, in which nothing stands for an empty name. -/
def sparse : RecordStyle := ⟨.null, none, .null⟩

/-- The form that tags take when they are read from bytes. -/
def labelled : RecordStyle := ⟨.bool true, some "$kind".toList, .text []⟩

/-- The record of a tag of the named sort. -/
def variant (style : RecordStyle) (name : Text) (payload : Value) : Value :=
  .record ((name, payload) :: (style.sortField.map fun field => (field, Value.text name)).toList)

/-- The value of a name of a module or type. -/
def name (style : RecordStyle) (s : Text) : Value := if s.isEmpty then style.emptyName else .text s

end RecordStyle

/-- The record of a struct type, given the value that stands for its parameters. -/
def StructName.toValue (style : RecordStyle) (name : StructName) (params : Value) : Value :=
  .record [(tagFields.address, .text name.address),
    (tagFields.moduleName, style.name name.moduleName),
    (tagFields.typeName, style.name name.typeName), (tagFields.params, params)]

/-- The record of a struct type that a caller names by its parts, which are looked at as
`StructName.create` does. The address has to be a text; the module and the type name are kept as
they are, and parameters that are left out are none. -/
def StructName.createView (parts : Value) : Except ViewFault Value := do
  let address ←
    match parts.field? tagFields.address with
    | some (.text literal) => (Address.ofLiteral literal).mapError .rejected
    | _ => .error .unusable
  let moduleName ← Identifier.checkView (parts.field? tagFields.moduleName)
  let typeName ← Identifier.checkView (parts.field? tagFields.typeName)
  let params :=
    match parts.field? tagFields.params with
    | none | some .null => .list []
    | some params => params
  return .record [(tagFields.address, .text address),
    (tagFields.moduleName, moduleName.getD .null), (tagFields.typeName, typeName.getD .null),
    (tagFields.params, params)]

namespace TypeTag

mutual

/-- The record that stands for a tag. -/
def toValue (style : RecordStyle) : TypeTag → Value
  | primitive type => style.variant type.label style.payload
  | vector element => style.variant tagFields.vector (toValue style element)
  | struct name params =>
    style.variant tagFields.struct (name.toValue style (.list (toValues style params)))

/-- The records that stand for tags. -/
def toValues (style : RecordStyle) : List TypeTag → List Value
  | [] => []
  | tag :: tags => toValue style tag :: toValues style tags

end

end TypeTag

/-- The record that stands for a struct type. -/
def StructTag.toValue (style : RecordStyle) (tag : StructTag) : Value :=
  tag.name.toValue style (.list (TypeTag.toValues style tag.params))

end MoveText
