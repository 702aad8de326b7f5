import MoveText.Number.Shortest
import MoveText.Text.Hex

/-!
# Unchecked values

A `Value` is what a caller may hand over where a tag, an argument or a set of options is called
for, before anyone has looked at it. Its texts and numbers are those of `Text` and `Binary64`, so an
unpaired surrogate and NaN are not among them. `Value.toText?` is the text it turns into where a
text is called for, if it has one, and `typeName` the name of its sort. A field that is absent is
`none`.
-/

namespace MoveText

/-- A value of any sort. The fields of a record keep the order in which they were given. -/
inductive Value where
  | null
  | bool (value : Bool)
  | number (value : Binary64)
  | integer (value : Int)
  | text (value : Text)
  | bytes (value : Bytes)
  | list (items : List Value)
  | record (fields : List (Text × Value))
  deriving Inhabited, Repr

namespace Value

/-- The name of the sort of a value, or of its absence. -/
def typeName : Option Value → Text
  | none => "undefined".toList
  | some (bool _) => "boolean".toList
  | some (number _) => "number".toList
  | some (integer _) => "bigint".toList
  | some (text _) => "string".toList
  | some null | some (bytes _) | some (list _) | some (record _) => "object".toList

/-- Whether fields can be looked up in the value. -/
def isObject : Value → Bool
  | bytes _ | list _ | record _ => true
  | _ => false

/-- The field that takes the text of a record away. -/
def textlessField : Text := "toString".toList

mutual

/-- The text a value turns into. All records have the same one, but for those with the field
`textlessField`, which have none, and neither has a list that holds one of them. -/
def toText? : Value → Option Text
  | null => some "null".toList
  | bool true => some "true".toList
  | bool false => some "false".toList
  | number x => some x.toText
  | integer n => some (Text.ofInt n)
  | text s => some s
  | bytes b => some (Text.join [','] (b.map fun x => Text.ofNat x.toNat))
  | list items => (itemTexts? items).map (Text.join [','])
  | record fields =>
    if (fields.lookup textlessField).isSome then none else some "[object Object]".toList

/-- The texts of items. A null item is left blank. -/
def itemTexts? : List Value → Option (List Text)
  | [] => some []
  | null :: items => (itemTexts? items).map ([] :: ·)
  | item :: items =>
    match toText? item, itemTexts? items with
    | some s, some others => some (s :: others)
    | _, _ => none

end

/-- The text of a value that may be absent. -/
def optionText? : Option Value → Option Text
  | none => some "undefined".toList
  | some v => v.toText?

/-- Whether the value counts as true. -/
def isTruthy : Value → Bool
  | null => false
  | bool b => b
  | number x => x.toInt? != some 0
  | integer n => n != 0
  | text s => !s.isEmpty
  | bytes _ | list _ | record _ => true

/-- The field of a record with the given name. -/
def field? (v : Value) (name : Text) : Option Value :=
  match v with
  | record fields => fields.lookup name
  | _ => none

/-- Whether the value has a field of the given name. -/
def has (v : Value) (name : Text) : Bool := (v.field? name).isSome

/-- The items of a list. -/
def items? : Value → Option (List Value)
  | list items => some items
  | _ => none

/-- Whether a name is the decimal text of a place below 2 ^ 32 - 1. -/
def isPlace (name : Text) : Bool :=
  let n := Text.digitsValue 10 name
  !name.isEmpty && name.all Char.isDigit && name == Text.ofNat n && n < Nat.pow 2 32 - 1

/-- The record with the given fields. Fields named by places come first, in ascending order. -/
def ofFields (fields : List (Text × Value)) : Value :=
  let places := fields.filter fun field => isPlace field.1
  let others := fields.filter fun field => !isPlace field.1
  let before := fun (a b : Text × Value) =>
    decide (Text.digitsValue 10 a.1 ≤ Text.digitsValue 10 b.1)
  record (places.mergeSort before ++ others)

private theorem sizeOf_lookup_lt {name : Text} {w : Value} :
    ∀ {fields : List (Text × Value)}, fields.lookup name = some w → sizeOf w < sizeOf fields
  | [], h => by simp at h
  | (key, v) :: rest, h => by
    rw [List.lookup_cons] at h
    split at h
    · obtain rfl := Option.some.inj h
      simp only [List.cons.sizeOf_spec, Prod.mk.sizeOf_spec]
      omega
    · have := sizeOf_lookup_lt h
      simp only [List.cons.sizeOf_spec]
      omega

/-- A field is smaller than its record. -/
theorem sizeOf_lt_of_field? {v w : Value} {name : Text} (h : v.field? name = some w) :
    sizeOf w < sizeOf v := by
  cases v with
  | record fields =>
    have : sizeOf w < sizeOf fields := sizeOf_lookup_lt h
    simp only [record.sizeOf_spec]
    omega
  | _ => simp [field?] at h

/-- The items of a list are together smaller than the list. -/
theorem sizeOf_lt_of_items? {v : Value} {items : List Value} (h : v.items? = some items) :
    sizeOf items < sizeOf v := by
  cases v with
  | list xs =>
    obtain rfl := Option.some.inj h
    simp only [list.sizeOf_spec]
    omega
  | _ => simp [items?] at h

end Value

end MoveText
