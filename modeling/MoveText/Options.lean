import MoveText.Text.Quoted
import MoveText.Value

/-!
# Parser options

The one option is the nesting limit of type tags, an integer from 1 to 255, 13 if it is not given.
`Options.resolve` checks what a caller hands over: a record with at most that field, or a list
without items. An `OptionsFault` is the first thing found wrong with it.
-/

namespace MoveText

/-- The options of a parser. -/
structure Options where
  maxNesting : Nat
  deriving DecidableEq, Repr

/-- What is wrong with a set of options, and how the value at fault is shown. -/
inductive OptionsFault where
  /-- The options are no record. -/
  | notAnObject (found : Text)
  /-- The limit is no integer. -/
  | notAnInteger (found : Text)
  /-- The limit is less than the least one. -/
  | tooSmall (found : Text)
  /-- The limit is greater than the greatest one. -/
  | tooLarge (found : Text)
  /-- There is no such option. -/
  | unknown (name found : Text)
  /-- The value at fault has no text to be shown by. -/
  | unshowable
  deriving DecidableEq, Repr

namespace Options

/-- The limit that holds unless another is given. -/
def defaultMaxNesting : Nat := 13

/-- The least limit. -/
def leastMaxNesting : Nat := 1

/-- The greatest limit. -/
def greatestMaxNesting : Nat := 255

/-- The name of the option. -/
def maxNestingName : Text := "maxTypeTagNesting".toList

/-- The options that hold unless others are given. -/
def default : Options := ⟨defaultMaxNesting⟩

/-- The integer that a value is, if it is a number and an integer. -/
def integer? : Value → Option Int
  | .number x => x.toInt?
  | _ => none

/-- How a value is shown: a text in quotes, anything else as its text. -/
def shown? : Value → Option Text
  | .text s => some (Text.quoted s)
  | v => v.toText?

/-- The fault that lies in a value. -/
def blame (v : Value) (fault : Text → OptionsFault) : OptionsFault :=
  match shown? v with
  | some found => fault found
  | none => .unshowable

/-- The limit that a value gives. -/
def limitOf (v : Value) : Except OptionsFault Nat :=
  match integer? v with
  | none => .error (blame v .notAnInteger)
  | some n =>
    if n < leastMaxNesting then .error (blame v .tooSmall)
    else if (greatestMaxNesting : Int) < n then .error (blame v .tooLarge)
    else .ok n.toNat

/-- The fields of a value, those of a list and of bytes being their places. -/
def fieldsOf? : Value → Option (List (Text × Value))
  | .record fields => some fields
  | .list items => some (items.zipIdx.map fun (item, i) => (Text.ofNat i, item))
  | .bytes bytes =>
    some (bytes.zipIdx.map fun (b, i) => (Text.ofNat i, .number (.finite false b.toNat 0)))
  | _ => none

/-- The options that a value gives. -/
def ofValue (v : Value) : Except OptionsFault Options :=
  match fieldsOf? v with
  | none => .error (blame v .notAnObject)
  | some fields => do
    let limit ←
      match fields.lookup maxNestingName with
      | none => .ok defaultMaxNesting
      | some limit => limitOf limit
    match fields.find? (fun field => field.1 != maxNestingName) with
    | some (name, found) => .error (blame found (.unknown name))
    | none => .ok ⟨limit⟩

/-- The options that hold for a caller, who may have given none. -/
def resolve : Option Value → Except OptionsFault Options
  | none => .ok default
  | some v => ofValue v

end Options

namespace OptionsFault

/-- Where in the options the fault lies. -/
def place : OptionsFault → Text
  | notAnObject _ | unshowable => []
  | notAnInteger _ | tooSmall _ | tooLarge _ =>
    "At path: ".toList ++ Options.maxNestingName ++ " -- ".toList
  | unknown name _ => "At path: ".toList ++ name ++ " -- ".toList

/-- What was expected there. -/
def complaint : OptionsFault → Text
  | notAnObject found => "Expected an object, but received: ".toList ++ found
  | notAnInteger found => "Expected an integer, but received: ".toList ++ found
  | tooSmall found =>
    "Expected a integer greater than or equal to ".toList ++ Text.ofNat Options.leastMaxNesting
      ++ " but received `".toList ++ found ++ ['`']
  | tooLarge found =>
    "Expected a integer less than or equal to ".toList ++ Text.ofNat Options.greatestMaxNesting
      ++ " but received `".toList ++ found ++ ['`']
  | unknown _ found =>
    "Expected a value of type `never`, but received: `".toList ++ found ++ ['`']
  | unshowable => "a value that cannot be shown".toList

/-- The wording of the fault. -/
def message (fault : OptionsFault) : Text := fault.place ++ fault.complaint

end OptionsFault

end MoveText
