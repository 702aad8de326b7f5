import MoveText.Binary.Input
import MoveText.Proofs.EntryPoints

/-!
# What is logged

An entry point logs a failure once and a value not at all (`Outcome.LogsOnce`), unless the options
are bad: that is nobody's input, and passes by the log. For a struct type the tag is parsed first,
and `StructTag.Wraps` says how the two outcomes go together: a rejection is logged as that of the
tag and handed on inside another, while the failure of a tag of another sort is logged as it is.
That a text is written in binary form makes no difference to the log (`failures_are_logged_once`).

Bad options are reported by a failure of their own sort, which shows the value at fault. Not every
value can be shown, so a value at fault without a text brings about a failure of another sort
(`bad_options_without_text`).
-/

namespace MoveText

/-! ### Bad options -/

namespace Options

variable {given v : Value} {fault : OptionsFault}

/-- **A value is at fault** in what a caller gives for options: the whole if it is no record, else
the limit if it is not allowed, else the first option of another name. -/
inductive AtFault (given : Value) : Value → Prop
  | whole (hfields : fieldsOf? given = none) : AtFault given given
  | limit {fields : List (Text × Value)} {v : Value} (hfields : fieldsOf? given = some fields)
      (hlookup : fields.lookup maxNestingName = some v) (hbad : ∀ n, limitOf v ≠ .ok n) :
      AtFault given v
  | unknown {fields : List (Text × Value)} {name : Text} {v : Value}
      (hfields : fieldsOf? given = some fields)
      (hlimit : ∀ w, fields.lookup maxNestingName = some w → ∃ n, limitOf w = .ok n)
      (hfind : fields.find? (fun field => field.1 != maxNestingName) = some (name, v)) :
      AtFault given v

private theorem blame_eq_unshowable_iff {make : Text → OptionsFault}
    (hmake : ∀ s, make s ≠ .unshowable) : blame v make = .unshowable ↔ shown? v = none := by
  rw [blame]
  cases shown? v <;> simp [hmake]

private theorem limitOf_eq_unshowable_iff (h : limitOf v = .error fault) :
    fault = .unshowable ↔ shown? v = none := by
  rw [limitOf] at h
  split at h
  · cases h
    exact blame_eq_unshowable_iff (by simp)
  · split_ifs at h
    · cases h
      exact blame_eq_unshowable_iff (by simp)
    · cases h
      exact blame_eq_unshowable_iff (by simp)

/-- **Bad options have a value at fault**, and the failure shows it if it can be shown. -/
theorem exists_atFault (h : ofValue given = .error fault) :
    ∃ v, AtFault given v ∧ (fault = .unshowable ↔ shown? v = none) := by
  rw [ofValue] at h
  split at h
  · next hfields =>
    cases h
    exact ⟨given, .whole hfields, blame_eq_unshowable_iff (by simp)⟩
  · next fields hfields =>
    -- the limit that is given is checked before the other names
    have hnames : (∀ w, fields.lookup maxNestingName = some w → ∃ n, limitOf w = .ok n) →
        (∃ name v, fields.find? (fun field => field.1 != maxNestingName) = some (name, v) ∧
          fault = blame v (.unknown name)) →
        ∃ v, AtFault given v ∧ (fault = .unshowable ↔ shown? v = none) := by
      rintro hlimit ⟨name, v, hfind, rfl⟩
      exact ⟨v, .unknown hfields hlimit hfind, blame_eq_unshowable_iff (by simp)⟩
    cases hlookup : fields.lookup maxNestingName with
    | none =>
      rw [hlookup] at h hnames
      refine hnames (by simp) ?_
      simp only [bind, Except.bind] at h
      split at h
      · next name v hfind => exact ⟨name, v, hfind, (Except.error.inj h).symm⟩
      · cases h
    | some w =>
      rw [hlookup] at h hnames
      cases hlimit : limitOf w with
      | error found =>
        simp only [hlimit, bind, Except.bind] at h
        obtain rfl := Except.error.inj h
        refine ⟨w, .limit hfields hlookup fun n hok => ?_, limitOf_eq_unshowable_iff hlimit⟩
        rw [hlimit] at hok
        cases hok
      | ok n =>
        refine hnames (fun _ hw => ⟨n, Option.some.inj hw ▸ hlimit⟩) ?_
        simp only [hlimit, bind, Except.bind] at h
        split at h
        · next name v hfind => exact ⟨name, v, hfind, (Except.error.inj h).symm⟩
        · cases h

end Options

/-- The failure is of the sort of bad options unless the value at fault cannot be shown. -/
private theorem Failure.label_badOptions_iff {fault : OptionsFault} :
    (badOptions fault).label = "InvalidParserOptionsError".toList ↔ fault ≠ .unshowable := by
  cases fault with
  | unshowable => exact iff_of_false (by decide) (not_not.mpr rfl)
  | _ => exact iff_of_true rfl (by simp)

/-! ### One record for a failure -/

namespace Outcome

variable {α : Type} {input : Text}

/-- **The log goes with the result**: nothing is logged with a value, and with a failure just its
record. -/
inductive LogsOnce (input : Text) : Outcome Failure α → Prop
  | value (a : α) : LogsOnce input ⟨.ok a, []⟩
  | failure (failure : Failure) : LogsOnce input ⟨.error failure, [failure.logRecord input]⟩

/-- A reader that stops only for reasons that a text can give has each of them logged. -/
private theorem logsOnce_ofReader (nests : Prop) {Q : α → Prop} {reader : TokenReader α}
    (hreader : reader.Meets nests Q) (input : Text) : LogsOnce input (ofReader reader input) := by
  rw [ofReader]
  rcases hreader.readText input with ⟨a, hread, -⟩ | ⟨rejection, hread, harises⟩
  · rw [hread]
    exact .value a
  · simp only [hread, harises.concernsInput, if_true]
    exact .failure (.rejected rejection)

variable {options : Option Value} {activity : Options → Outcome Failure α}

theorem underOptions_of_error {fault : OptionsFault} (h : Options.resolve options = .error fault) :
    underOptions options activity = ⟨.error (.badOptions fault), []⟩ := by
  rw [underOptions, h]

theorem underOptions_of_ok {resolved : Options} (h : Options.resolve options = .ok resolved) :
    underOptions options activity = activity resolved := by
  rw [underOptions, h]

end Outcome

/-! ### Struct types -/

namespace StructTag

variable {options : Option Value} {input : Text}

/-- **The outcome for a struct type goes by that for the tag.** A struct type is kept and nothing is
logged; a tag of another sort is no struct type, which is logged; and a rejection is wrapped, and
logged as it was. -/
inductive Wraps (input : Text) : Outcome Failure TypeTag → Outcome Failure StructTag → Prop
  | struct (tag : StructTag) : Wraps input ⟨.ok tag.toTypeTag, []⟩ ⟨.ok tag, []⟩
  | other {tag : TypeTag} (h : ∀ s : StructTag, tag ≠ s.toTypeTag) :
      Wraps input ⟨.ok tag, []⟩
        ⟨.error (.notAStructTag input), [(Failure.notAStructTag input).logRecord input]⟩
  | rejected (cause : Rejection) :
      Wraps input ⟨.error (.rejected cause), [(Failure.rejected cause).logRecord input]⟩
        ⟨.error (.badStructTag input cause), [(Failure.rejected cause).logRecord input]⟩

/-- The tag decides what is found, whatever the options. -/
theorem parse_eq_ok_iff {tag : StructTag} : (parse options input).result = .ok tag ↔
    (TypeTag.parse options input).result = .ok tag.toTypeTag := by
  rw [parse]
  rcases TypeTag.parse options input with ⟨failure | found, log⟩
  · cases failure with
    | rejected rejection =>
      dsimp only
      split_ifs <;> simp
    | _ => simp
  · obtain ⟨name, params⟩ := tag
    cases found <;> simp [toTypeTag]

/-- The outcomes go together where a reader of tags stops only for reasons that a text can give. -/
private theorem wraps_parse {nests : Prop} {Q : TypeTag → Prop} {reader : TokenReader TypeTag}
    (hreader : reader.Meets nests Q)
    (hparse : TypeTag.parse options input = Outcome.ofReader reader input) :
    Wraps input (TypeTag.parse options input) (parse options input) := by
  rw [parse, hparse, Outcome.ofReader]
  rcases hreader.readText input with ⟨tag, hread, -⟩ | ⟨rejection, hread, harises⟩
  · rw [hread]
    cases tag with
    | struct name params => exact .struct ⟨name, params⟩
    | _ => exact .other fun s => by simp [StructTag.toTypeTag]
  · simp only [hread, harises.concernsInput, if_true]
    exact .rejected rejection

end StructTag

/-- A text is written as the tag that it is parsed as, and fails and logs as it is parsed. -/
private theorem TypeTag.serialize_text (input : Text) :
    serialize (.text input) = ⟨((parse none input).result.map encode).mapError .failed,
      (parse none input).log⟩ := by
  rw [serialize]
  rcases parse none input with ⟨failure | tag, log⟩ <;> rfl

/-- **Failures are logged once.** Bad options are reported as they are by every entry point that
takes any, for all inputs, and are not logged; the failure is of the sort of bad options exactly if
the value at fault can be shown. Otherwise each entry point logs its failure, and only that; but one
for struct types logs the failure of the tag, which it wraps, and it gives a struct type exactly if
the tag is that type. A text that is written in binary form is parsed without options, and fails and
logs like that. -/
theorem failures_are_logged_once (options : Option Value) (input : Text) :
    (∀ fault, Options.resolve options = .error fault →
      TypeTag.parse options input = ⟨.error (.badOptions fault), []⟩ ∧
      TypeTag.parseList options input = ⟨.error (.badOptions fault), []⟩ ∧
      StructTag.parse options input = ⟨.error (.badOptions fault), []⟩ ∧
      ∃ given v, options = some given ∧ Options.AtFault given v ∧
        ((Failure.badOptions fault).label = "InvalidParserOptionsError".toList ↔
          Options.shown? v ≠ none)) ∧
    (∀ resolved, Options.resolve options = .ok resolved →
      (TypeTag.parse options input).LogsOnce input ∧
      (TypeTag.parseList options input).LogsOnce input ∧
      StructTag.Wraps input (TypeTag.parse options input) (StructTag.parse options input)) ∧
    (Argument.parse input).LogsOnce input ∧ (Argument.parseList input).LogsOnce input ∧
    (Identifier.parseList input).LogsOnce input ∧
    (∀ tag, (StructTag.parse options input).result = .ok tag ↔
      (TypeTag.parse options input).result = .ok tag.toTypeTag) ∧
    (∀ failure : Failure, failure.logRecord input = ⟨input, failure.label, failure.message⟩) ∧
    (Failure.notAStructTag input).label = "InvalidStructTagError".toList ∧
    (∀ cause, (Failure.badStructTag input cause).label = "InvalidStructTagError".toList ∧
      (Failure.badStructTag input cause).message = "invalid struct tag: ".toList ++ input ++
        ", ".toList ++ (Failure.rejected cause).message) ∧
    TypeTag.serialize (.text input) =
      ⟨((TypeTag.parse none input).result.map TypeTag.encode).mapError .failed,
        (TypeTag.parse none input).log⟩ ∧
    ∀ failure, (WriteFault.failed failure).label = failure.label ∧
      (WriteFault.failed failure).message? = some failure.message := by
  refine ⟨fun fault hfault => ?_, fun resolved hresolved => ?_,
    Outcome.logsOnce_ofReader False Argument.meets_read input,
    Outcome.logsOnce_ofReader False
      (Argument.meets_read.commaList Argument.advances_read .eof true) input,
    Outcome.logsOnce_ofReader False
      (TokenReader.meets_string.commaList TokenReader.advances_string .eof true) input,
    fun tag => StructTag.parse_eq_ok_iff, fun failure => rfl, rfl, fun cause => ⟨rfl, rfl⟩,
    TypeTag.serialize_text input, fun failure => ⟨rfl, rfl⟩⟩
  · have htag : TypeTag.parse options input = ⟨.error (.badOptions fault), []⟩ :=
      Outcome.underOptions_of_error hfault
    refine ⟨htag, Outcome.underOptions_of_error hfault, by rw [StructTag.parse, htag], ?_⟩
    cases options with
    | none => cases hfault
    | some given =>
      obtain ⟨v, hv, hshown⟩ := Options.exists_atFault hfault
      exact ⟨given, v, rfl, hv, Failure.label_badOptions_iff.trans (not_congr hshown)⟩
  · have hread := TypeTag.meets_read (Options.bounds_of_resolve hresolved).1
    have hadvances := TypeTag.advances_read (Options.bounds_of_resolve hresolved).1
    have htag : TypeTag.parse options input =
        Outcome.ofReader (TypeTag.read 0 resolved.maxNesting) input :=
      Outcome.underOptions_of_ok hresolved
    refine ⟨?_, ?_, StructTag.wraps_parse hread htag⟩
    · rw [htag]
      exact Outcome.logsOnce_ofReader True hread input
    · rw [TypeTag.parseList, Outcome.underOptions_of_ok hresolved]
      exact Outcome.logsOnce_ofReader True (hread.commaList hadvances .eof true) input

/-- A null is bad options, and goes by the log; under no options a number type is logged as no
struct type. -/
theorem failures_are_logged_once_null :
    StructTag.parse (some .null) "u8".toList =
      ⟨.error (.badOptions (.notAnObject "null".toList)), []⟩ ∧
    StructTag.Wraps "u8".toList (TypeTag.parse none "u8".toList)
      (StructTag.parse none "u8".toList) ∧
    (StructTag.parse none "u8".toList).log =
      [⟨"u8".toList, "InvalidStructTagError".toList, "invalid struct tag: u8".toList⟩] := by
  obtain ⟨hbad, -⟩ := failures_are_logged_once (some .null) "u8".toList
  obtain ⟨-, hgood, -⟩ := failures_are_logged_once none "u8".toList
  exact ⟨(hbad _ rfl).2.2.1, (hgood _ rfl).2.2, by decide +kernel⟩

/-- **Options whose fault has no text** are reported by a failure of another sort, and nothing is
logged: the one at fault here is a record that has its text taken away. -/
theorem bad_options_without_text :
    let options : Value := .record [(Options.maxNestingName, .number (.ofInt 5)),
      ("extra".toList, .record [(Value.textlessField, .number (.ofInt 1))])]
    TypeTag.parse (some options) "u8".toList = ⟨.error (.badOptions .unshowable), []⟩ ∧
      (Failure.badOptions .unshowable).label ≠ "InvalidParserOptionsError".toList := by
  refine ⟨Outcome.underOptions_of_error ?_, by decide⟩
  rfl

end MoveText
