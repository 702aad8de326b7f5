import MoveText.TypeTag

/-!
# Type tags as text

`TypeTag.render` writes a tag: type parameters in angle brackets, none if there are none, with a
separator between them. A `TagStyle` says whether addresses take their full width and what the
separator is. The normal form of a struct type, full width and a bare comma, serves to compare
struct types.
-/

namespace MoveText

/-- How tags are written. -/
structure TagStyle where
  fullAddresses : Bool
  separator : Text
  deriving DecidableEq, Repr

namespace TagStyle

/-- What stands between type parameters unless something else is asked for. -/
def defaultSeparator : Text := [',', ' ']

/-- Short addresses. -/
def short : TagStyle := ⟨false, defaultSeparator⟩

/-- Addresses at full width. -/
def full : TagStyle := ⟨true, defaultSeparator⟩

/-- Addresses at full width and nothing but commas between parameters. -/
def normal : TagStyle := ⟨true, [',']⟩

/-- An address in the given style. -/
def address (style : TagStyle) (s : Text) : Text :=
  if style.fullAddresses then Address.normalize s else Address.shorten s

end TagStyle

/-- The name of a struct type as text. -/
def StructName.render (style : TagStyle) (name : StructName) : Text :=
  style.address name.address ++ ':' :: ':' :: name.moduleName ++ ':' :: ':' :: name.typeName

namespace TypeTag

/-- The word that names a vector type. -/
def vectorLabel : Text := "vector".toList

mutual

/-- A tag as text. -/
def render (style : TagStyle) : TypeTag → Text
  | primitive type => type.label
  | vector element => vectorLabel ++ '<' :: render style element ++ ['>']
  | struct name [] => name.render style
  | struct name (param :: params) =>
    name.render style ++ '<' :: render style param ++ renderMore style params ++ ['>']

/-- The parameters after the first, each behind a separator. -/
def renderMore (style : TagStyle) : List TypeTag → Text
  | [] => []
  | param :: params => style.separator ++ render style param ++ renderMore style params

end

end TypeTag

namespace StructTag

/-- A struct type as text. -/
def render (style : TagStyle) (tag : StructTag) : Text := tag.toTypeTag.render style

/-- The text by which struct types are compared. -/
def normalForm (tag : StructTag) : Text := tag.render .normal

end StructTag

end MoveText
