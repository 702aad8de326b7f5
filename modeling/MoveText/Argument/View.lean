import MoveText.Argument.Record
import MoveText.Value.Number

/-!
# Unchecked values as arguments

A record stands for an argument by the names of its fields. When it has several, the first of `u8`,
`u64`, `u128`, `bool` and `address` decides, and without any of them it is a byte string.
-/

namespace MoveText.Argument

/-- The text of the argument that a value stands for. An integer is shown whatever it is, a truth
value by whether it counts as true; an address has to be text, and a byte string bytes or items
that stand for them. -/
def renderView? (v : Value) : Option Text :=
  match v.field? Width.u8.label, v.field? Width.u64.label, v.field? Width.u128.label with
  | some n, _, _ => n.toText?.map (· ++ Width.u8.label)
  | none, some n, _ => n.toText?.map (· ++ Width.u64.label)
  | none, none, some n => n.toText?.map (· ++ Width.u128.label)
  | none, none, none =>
    match v.field? boolField, v.field? addressField, v.field? bytesField with
    | some b, _, _ => some (bool b.isTruthy).render
    | none, some (.text s), _ => some (address s).render
    | none, none, some (.bytes b) => some (bytes b).render
    | none, none, some (.list items) => (Value.hexOfItems? items).map byteLiteral
    | _, _, _ => none

end MoveText.Argument
