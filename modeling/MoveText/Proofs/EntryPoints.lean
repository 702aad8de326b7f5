import MoveText.Proofs.Argument.Reading
import MoveText.Proofs.TypeTag.Reading

/-!
# How the entry points fail

Under valid options an entry point gives a value, or turns the input down for a reason that a text
can give: `Rejection.Arises` lists them. The reader of type tags meets this like that of arguments
(`TypeTag.meets_readAbove`), so `entry_points_fail_as_meant` holds for all entry points. What only
tokens made by hand could bring about never happens: the tokens do not run out, a literal that was
cut from a text is a literal, a name is an identifier, a number is a numeral, and the digits of a
byte string are digits.
-/

namespace MoveText

namespace TypeTag

open TokenReader

private theorem meets_readParams {nests : Prop} {param : TokenReader TypeTag}
    (hparam : Meets nests (fun _ => True) param) (hadvances : Advances param) :
    Meets nests (fun _ => True) (readParams param) := by
  refine (meets_nextIs .lt).bind fun opens _ => ?_
  split_ifs
  · refine (meets_expect (by decide)).bind fun _ _ => ?_
    refine (hparam.commaList hadvances .gt true).bind fun params _ => ?_
    exact (meets_expect (by decide)).bind fun _ _ => meets_pure trivial
  · exact meets_pure trivial

/-- **The reader of type tags** stops only for reasons that a text can give. -/
theorem meets_readAbove (limit : Int) (levels : Nat) :
    Meets True (fun _ => True) (readAbove limit levels) := by
  induction levels with
  | zero => exact meets_fail (.tooDeep trivial limit)
  | succ levels ih =>
    refine meets_next_bind (fun token word hspells => ?_) ⟨_, rfl, .unexpected .typeTag .eof⟩
    cases hspells with
    | keyword k =>
      cases k with
      | primitive type => exact meets_pure trivial
      | vector =>
        refine (meets_expect (by decide)).bind fun _ _ => ih.bind fun element _ => ?_
        exact (meets_expect (by decide)).bind fun _ _ => meets_pure trivial
      | truth value => exact meets_fail (.unexpected .typeTag _)
    | address hmarker hne hdigits =>
      refine (meets_expect (by decide)).bind fun _ _ => meets_structPart.bind ?_
      rintro _ ⟨moduleName, rfl, hmodule⟩
      refine (meets_expect (by decide)).bind fun _ _ => meets_structPart.bind ?_
      rintro _ ⟨typeName, rfl, htype⟩
      refine (meets_readParams ih (advances_readAbove limit levels)).bind fun params _ => ?_
      -- the token has its text, and of the name only the literal can be wrong
      refine (meets_pure rfl : Meets _ (· = _) _).bind ?_
      rintro _ rfl
      rw [StructName.create_marked hne hdigits hmodule htype]
      split_ifs with hlong
      · exact (meets_fail (Q := fun _ => True) (.longAddress hdigits hlong)).bind fun _ _ =>
          meets_pure trivial
      · exact (meets_pure (Q := fun _ => True) trivial).bind fun _ _ => meets_pure trivial
    | _ => exact meets_fail (.unexpected .typeTag _)

theorem meets_read {limit : Nat} (hlimit : 0 < limit) :
    Meets True (fun _ => True) (read 0 limit) := by
  rw [read_eq_readAbove hlimit]
  exact meets_readAbove limit limit

end TypeTag

namespace Outcome

/-- What comes of reading a text is a value of the condition, or a rejection that arises. -/
theorem ofReader_of_meets {α : Type} {nests : Prop} {Q : α → Prop} {reader : TokenReader α}
    (hreader : reader.Meets nests Q) (input : Text) :
    (∃ a, (ofReader reader input).result = .ok a ∧ Q a) ∨
      ∃ rejection, (ofReader reader input).result = .error (.rejected rejection) ∧
        rejection.Arises nests := by
  rw [ofReader]
  rcases hreader.readText input with ⟨a, hread, hQ⟩ | ⟨rejection, hread, harises⟩
  · rw [hread]
    exact .inl ⟨a, rfl, hQ⟩
  · rw [hread]
    exact .inr ⟨rejection, rfl, harises⟩

/-- The outcome is a value, or a rejection that arises. -/
def FailsAsMeant {α : Type} (nests : Prop) (outcome : Outcome Failure α) : Prop :=
  (∃ a, outcome.result = .ok a) ∨
    ∃ rejection, outcome.result = .error (.rejected rejection) ∧ rejection.Arises nests

private theorem failsAsMeant_ofReader {α : Type} {nests : Prop} {Q : α → Prop}
    {reader : TokenReader α} (hreader : reader.Meets nests Q) (input : Text) :
    FailsAsMeant nests (ofReader reader input) :=
  (ofReader_of_meets hreader input).imp_left fun ⟨a, ha, _⟩ => ⟨a, ha⟩

end Outcome

namespace StructTag

variable {options : Option Value} {input : Text}

/-- For a struct type the result goes by that of the type tag: a struct type is kept, another tag is
no struct type, and a rejection is wrapped. -/
private theorem parse_of_failsAsMeant (h : (TypeTag.parse options input).FailsAsMeant True) :
    (∃ name params, (TypeTag.parse options input).result = .ok (.struct name params) ∧
      (parse options input).result = .ok ⟨name, params⟩) ∨
    (∃ tag, (TypeTag.parse options input).result = .ok tag ∧
      (∀ name params, tag ≠ .struct name params) ∧
      (parse options input).result = .error (.notAStructTag input)) ∨
    ∃ rejection, (TypeTag.parse options input).result = .error (.rejected rejection) ∧
      rejection.Arises True ∧
      (parse options input).result = .error (.badStructTag input rejection) := by
  rw [parse]
  rcases hparse : TypeTag.parse options input with ⟨result, log⟩
  rw [hparse] at h
  rcases h with ⟨tag, htag⟩ | ⟨rejection, hrejection, harises⟩
  · obtain rfl : result = .ok tag := htag
    cases tag with
    | struct name params => exact .inl ⟨name, params, rfl, rfl⟩
    | _ => exact .inr (.inl ⟨_, rfl, by simp, rfl⟩)
  · obtain rfl : result = .error (.rejected rejection) := hrejection
    simp only [harises.concernsInput, if_true]
    exact .inr (.inr ⟨rejection, rfl, harises, rfl⟩)

end StructTag

/-- **The entry points fail only as they are meant to.** Under valid options, and on any input, each
of them gives a value or turns the input down for a reason that arises; nesting is a reason for type
tags alone. A struct type is turned down with such a reason as its cause, or without a cause, the
latter exactly if the input is a type tag of another sort. Where a token is amiss, it is told what
was expected and what was there; and none of the reasons is one that only tokens made by hand could
give. -/
theorem entry_points_fail_as_meant {options : Option Value} {resolved : Options}
    (hoptions : Options.resolve options = .ok resolved) (input : Text) :
    (TypeTag.parse options input).FailsAsMeant True ∧
    (TypeTag.parseList options input).FailsAsMeant True ∧
    (Argument.parse input).FailsAsMeant False ∧
    (Argument.parseList input).FailsAsMeant False ∧
    (Identifier.parseList input).FailsAsMeant False ∧
    ((∃ tag, (StructTag.parse options input).result = .ok tag) ∨
      (∃ cause, (StructTag.parse options input).result = .error (.badStructTag input cause) ∧
        cause.Arises True) ∨
      (StructTag.parse options input).result = .error (.notAStructTag input)) ∧
    ((StructTag.parse options input).result = .error (.notAStructTag input) ↔
      ∃ tag, (TypeTag.parse options input).result = .ok tag ∧
        ∀ name params, tag ≠ .struct name params) ∧
    ∀ (nests : Prop) (rejection : Rejection), rejection.Arises nests →
      (rejection.category = .grammatical →
        rejection.expected?.isSome ∧ rejection.actual?.isSome) ∧
      (rejection.category = .nesting → nests) ∧
      (rejection.category = .semantic →
        (∃ literal, rejection = .longAddress literal) ∨
        (∃ width digits, rejection = .overflow width digits) ∨
        ∃ digits, rejection = .oddBytes digits) ∧
      rejection.category ≠ .numeral ∧ rejection.category ≠ .bareToken ∧
      rejection ≠ .outOfTokens ∧ (∀ literal, rejection ≠ .badAddress literal) ∧
      (∀ name, rejection ≠ .badIdentifier name) ∧ ∀ digits, rejection ≠ .badBytes digits := by
  have hread := TypeTag.meets_read (Options.bounds_of_resolve hoptions).1
  have hadvances := TypeTag.advances_read (Options.bounds_of_resolve hoptions).1
  have htag : (TypeTag.parse options input).FailsAsMeant True := by
    rw [TypeTag.parse, Outcome.underOptions, hoptions]
    exact Outcome.failsAsMeant_ofReader hread input
  have htags : (TypeTag.parseList options input).FailsAsMeant True := by
    rw [TypeTag.parseList, Outcome.underOptions, hoptions]
    exact Outcome.failsAsMeant_ofReader (hread.commaList hadvances .eof true) input
  have hstruct := StructTag.parse_of_failsAsMeant htag
  refine ⟨htag, htags, Outcome.failsAsMeant_ofReader Argument.meets_read input,
    Outcome.failsAsMeant_ofReader (Argument.meets_read.commaList Argument.advances_read .eof true)
      input,
    Outcome.failsAsMeant_ofReader (TokenReader.meets_string.commaList TokenReader.advances_string
      .eof true) input, ?_, ?_, fun nests rejection harises => ?_⟩
  · rcases hstruct with ⟨name, params, -, h⟩ | ⟨tag, -, -, h⟩ | ⟨cause, -, harises, h⟩
    · exact .inl ⟨_, h⟩
    · exact .inr (.inr h)
    · exact .inr (.inl ⟨cause, h, harises⟩)
  · rcases hstruct with ⟨name, params, hname, h⟩ | ⟨tag, hname, hnot, h⟩ | ⟨cause, hname, -, h⟩
    · simp [hname, h]
    · simpa [hname, h] using hnot
    · simp [hname, h]
  · cases harises <;> simp_all [Rejection.category, Rejection.expected?, Rejection.actual?]

/-- A mark that starts nothing, at a limit of two. -/
theorem entry_points_fail_as_meant_mark :
    Options.resolve (some (Options.ofLimit 2)) = .ok ⟨2⟩ ∧
      (Argument.parse ['>']).result = .error (.rejected (.unexpected .argument .gt)) ∧
      (Argument.parse ['>']).FailsAsMeant False ∧
      (TypeTag.parse (some (Options.ofLimit 2)) ['>']).FailsAsMeant True := by
  have hoptions := Options.resolve_ofLimit (by decide : 1 ≤ 2) (by decide)
  have hall := entry_points_fail_as_meant hoptions ['>']
  exact ⟨hoptions, rfl, hall.2.2.1, hall.1⟩

end MoveText
