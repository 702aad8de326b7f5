import MoveText.TypeTag.Record
import MoveText.TypeTag.Render

/-!
# Unchecked values as type tags

A record stands for a tag by the names of its fields. When it has several, the first of `bool`,
`u8`, `u64`, `u128`, `address`, `signer`, `vector` and `struct` decides, whatever else is there, and
the payload of a primitive type is not looked at. `TypeTag.view?` is the tag so seen, for rendering
it. The depth of a record goes by `vector` and `struct` alone.
-/

namespace MoveText

/-- The name of the option for addresses at full width. -/
def TagStyle.fullAddressesName : Text := "normalizeAddresses".toList

/-- The name of the option for what stands between parameters. -/
def TagStyle.separatorName : Text := "separator".toList

/-- The primitive type that a record stands for, if it names one. -/
def Primitive.ofValue? (v : Value) : Option Primitive :=
  Primitive.all.find? fun type => v.has type.label

/-- The name of the struct type that a value stands for. The module and the type name may be
anything that has a text. -/
def StructName.view? (v : Value) : Option StructName :=
  match v.field? tagFields.address with
  | some (.text address) => do
      let moduleName ← Value.optionText? (v.field? tagFields.moduleName)
      let typeName ← Value.optionText? (v.field? tagFields.typeName)
      return { address, moduleName, typeName }
  | _ => none

mutual

/-- The tag that a value stands for. -/
def TypeTag.view? (v : Value) : Option TypeTag :=
  match Primitive.ofValue? v with
  | some type => some (.primitive type)
  | none =>
    match _h : v.field? tagFields.vector with
    | some element => (TypeTag.view? element).map .vector
    | none =>
      match _h : v.field? tagFields.struct with
      | some tag => (StructTag.view? tag).map StructTag.toTypeTag
      | none => none
termination_by sizeOf v
decreasing_by all_goals exact Value.sizeOf_lt_of_field? _h

/-- The struct type that a value stands for. -/
def StructTag.view? (v : Value) : Option StructTag :=
  match StructName.view? v, _h : v.field? tagFields.params with
  | some name, some params =>
    match _h' : params.items? with
    | some items => (TypeTag.viewAll? items).map (StructTag.mk name)
    | none => none
  | _, _ => none
termination_by sizeOf v
decreasing_by
  have := Value.sizeOf_lt_of_field? _h
  have := Value.sizeOf_lt_of_items? _h'
  omega

/-- The tags that values stand for. -/
def TypeTag.viewAll? (vs : List Value) : Option (List TypeTag) :=
  match vs with
  | [] => some []
  | v :: rest =>
    match TypeTag.view? v, TypeTag.viewAll? rest with
    | some tag, some tags => some (tag :: tags)
    | _, _ => none
termination_by sizeOf vs

end

mutual

/-- The depth of the tag that a value stands for; none if a part of it is no record. -/
def Value.tagDepth? (v : Value) : Option Nat :=
  if v.isObject then
    match _h : v.field? tagFields.vector with
    | some element => (Value.tagDepth? element).map (· + 1)
    | none =>
      match _h : v.field? tagFields.struct with
      | some tag =>
        match _h' : tag.field? tagFields.params with
        | some params =>
          match _h'' : params.items? with
          | some items => Value.tagDepthBelow? items
          | none => none
        | none => none
      | none => some 0
  else none
termination_by sizeOf v
decreasing_by
  · exact Value.sizeOf_lt_of_field? _h
  · have := Value.sizeOf_lt_of_field? _h
    have := Value.sizeOf_lt_of_field? _h'
    have := Value.sizeOf_lt_of_items? _h''
    omega

/-- The depth of what has the given values as parameters. -/
def Value.tagDepthBelow? (vs : List Value) : Option Nat :=
  match vs with
  | [] => some 0
  | v :: rest =>
    match Value.tagDepth? v, Value.tagDepthBelow? rest with
    | some depth, some below => some (max (depth + 1) below)
    | _, _ => none
termination_by sizeOf vs

end

/-- Whether a value that fields can be looked up in stands for a vector. -/
def Value.isVectorTag? (v : Value) : Option Bool :=
  if v.isObject then some (v.has tagFields.vector) else none

/-- Whether a value that fields can be looked up in stands for a struct type. -/
def Value.isStructTag? (v : Value) : Option Bool :=
  if v.isObject then some (v.has tagFields.struct) else none

/-- The style that a caller asks for, who may ask for none. Nothing can be looked up in a null, and
a separator has to have a text. -/
def TagStyle.ofValue? : Option Value → Option TagStyle
  | none => some .short
  | some .null => none
  | some options => do
    let separator ←
      match options.field? TagStyle.separatorName with
      | none | some .null => some TagStyle.defaultSeparator
      | some separator => separator.toText?
    return ⟨((options.field? TagStyle.fullAddressesName).map Value.isTruthy).getD false, separator⟩

/-- Whether there is a struct type in the tag. Without one, its text is the same in all styles. -/
def TypeTag.hasStruct : TypeTag → Bool
  | .primitive _ => false
  | .vector element => element.hasStruct
  | .struct _ _ => true

/-- The text of the tag that a value stands for. -/
def TypeTag.renderView? (style : Option TagStyle) (v : Value) : Option Text :=
  match TypeTag.view? v, style with
  | some tag, some style => some (tag.render style)
  | some tag, none => if tag.hasStruct then none else some (tag.render .short)
  | none, _ => none

/-- The text of the struct type that a value stands for. -/
def StructTag.renderView? (style : Option TagStyle) (v : Value) : Option Text :=
  match StructTag.view? v, style with
  | some tag, some style => some (tag.render style)
  | _, _ => none

end MoveText
