import MoveText.Argument
import MoveText.Value

/-!
# Transaction arguments as records

An argument is handed over as a record whose one field is named for its sort. `Argument.toValue` is
this record. A byte is held as a floating-point number and a wider integer exactly.
-/

namespace MoveText.Argument

/-- The name of the field that holds a byte string. -/
def bytesField : Text := "u8vector".toList

/-- The name of the field that holds a truth value. -/
def boolField : Text := "bool".toList

/-- The name of the field that holds an address. -/
def addressField : Text := "address".toList

/-- The value that stands for an integer of the given width. -/
def valueOfInteger : Width → Int → Value
  | .u8, n => .number (Binary64.ofInt n)
  | _, n => .integer n

/-- The record that stands for an argument. -/
def toValue : Argument → Value
  | integer width value => .record [(width.label, valueOfInteger width value)]
  | bool value => .record [(boolField, .bool value)]
  | address value => .record [(addressField, .text value)]
  | bytes value => .record [(bytesField, .bytes value)]

end MoveText.Argument
