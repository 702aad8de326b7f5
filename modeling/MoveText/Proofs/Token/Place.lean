import MoveText.Proofs.Token.Checks
import MoveText.Proofs.Token.Rounds
import MoveText.TypeTag.Grammar

/-!
# Where readers stop

A reader that stops leaves the tokens that it has not taken, and its rejection tells something of
the place. If it names a token, that is the last one taken; if the tokens ran out, none are left.
`Rejection.LeavesOff` says so, and that a token is never told to stand in its own place. It
holds of readers of single tokens, and then of all that is put together from them in the grammar
(`TokenReader.StopsInPlace`). For comma lists the loop is followed round by round.

A rejection that comes of no single token is one of an item, and the loop came to that item at some
place (`Rounds.exists_item_eq_error`).
-/

namespace MoveText

namespace Rejection

/-- **Where a rejection leaves off**, of the tokens that a reader was given: behind the token that
it names, and, if the tokens ran out, at their end. -/
def LeavesOff (rejection : Rejection) (tokens rest : List Token) : Prop :=
  match rejection with
  | mismatch expected actual => expected ≠ actual ∧ actual :: rest <:+ tokens
  | notAName actual | unexpected _ actual => actual :: rest <:+ tokens
  | outOfTokens => rest = []
  | _ => True

variable {rejection : Rejection} {tokens mid rest : List Token}

/-- What holds of an end part of the tokens holds of all of them. -/
theorem LeavesOff.of_suffix (h : rejection.LeavesOff mid rest) (hmid : mid <:+ tokens) :
    rejection.LeavesOff tokens rest := by
  cases rejection with
  | mismatch expected actual => exact ⟨h.1, h.2.trans hmid⟩
  | notAName actual => exact List.IsSuffix.trans h hmid
  | unexpected wanted actual => exact List.IsSuffix.trans h hmid
  | _ => exact h

/-- The token that is named is the last one taken. -/
theorem LeavesOff.exists_token (h : rejection.LeavesOff tokens rest) {shown : Text}
    (hshown : rejection.actual? = some shown) :
    ∃ token, token :: rest <:+ tokens ∧ shown = token.describe := by
  cases rejection with
  | mismatch expected actual => exact ⟨actual, h.2, (Option.some.inj hshown).symm⟩
  | notAName actual => exact ⟨actual, h, (Option.some.inj hshown).symm⟩
  | unexpected wanted actual => exact ⟨actual, h, (Option.some.inj hshown).symm⟩
  | _ => cases hshown

/-- What a token stands for tells nothing of a place. -/
private theorem ConcernsText.leavesOff (h : rejection.ConcernsText) (tokens rest : List Token) :
    rejection.LeavesOff tokens rest := by
  cases rejection with
  | mismatch | notAName | unexpected | outOfTokens => rcases h with h | h | h <;> cases h
  | _ => trivial

end Rejection

namespace TokenReader

variable {α β : Type} {r item : TokenReader α} {rejection : Rejection} {tokens rest : List Token}
  {stop : Token} {trailing : Bool}

/-! ### When readers stop -/

/-- A reader followed by another stops exactly if one of them does. -/
theorem bind_eq_error_iff {f : α → TokenReader β} :
    (r >>= f) tokens = (.error rejection, rest) ↔ r tokens = (.error rejection, rest) ∨
      ∃ a mid, r tokens = (.ok a, mid) ∧ f a mid = (.error rejection, rest) := by
  rcases hr : r tokens with ⟨found | a, mid⟩
  · simp [bind_of_error hr]
  · simp [bind_of_ok hr, and_assoc]

theorem ofExcept_eq_error_iff {result : Except Rejection α} :
    ofExcept result tokens = (.error rejection, rest) ↔
      result = .error rejection ∧ tokens = rest := by
  simp [ofExcept]

/-- A token that has to stand there is missing, or another one is taken in its place. -/
theorem expect_eq_error_iff {expected : Token} :
    expect expected tokens = (.error rejection, rest) ↔
      (tokens = [] ∧ rejection = .outOfTokens ∧ rest = []) ∨
        ∃ actual, tokens = actual :: rest ∧ actual ≠ expected ∧
          rejection = .mismatch expected actual := by
  cases tokens with
  | nil =>
    change ((.error .outOfTokens, []) : Except Rejection Unit × List Token) = _ ↔ _
    simp [eq_comm]
  | cons actual tail =>
    by_cases hactual : actual = expected
    · subst hactual
      rw [show expect actual (actual :: tail) = (.ok (), tail) from expect_eq_ok_iff.mpr rfl]
      simp
    · rw [expect_eq_error hactual]
      constructor
      · intro h
        cases h
        exact .inr ⟨actual, rfl, hactual, rfl⟩
      · rintro (⟨⟨⟩, -⟩ | ⟨_, ⟨⟩, -, rfl⟩)
        rfl

/-! ### Stopping in place -/

/-- **The reader stops in place**: its rejections tell the place where it leaves off. -/
def StopsInPlace (r : TokenReader α) : Prop :=
  ∀ ⦃tokens rest rejection⦄, r tokens = (.error rejection, rest) → rejection.LeavesOff tokens rest

theorem stopsInPlace_pure (a : α) : StopsInPlace (pure a : TokenReader α) := by
  intro tokens rest rejection h
  cases h

theorem stopsInPlace_nextIs (token : Token) : StopsInPlace (nextIs token) := by
  intro tokens rest rejection h
  cases h

/-- A check of what a token stands for may stop anywhere. -/
theorem stopsInPlace_ofExcept {result : Except Rejection α} (h : FailsOnText result) :
    StopsInPlace (ofExcept result) := by
  intro tokens rest rejection hstop
  exact (h rejection (ofExcept_eq_error_iff.mp hstop).1).leavesOff tokens rest

theorem StopsInPlace.bind {f : α → TokenReader β} (hr : StopsInPlace r) (hadvances : Advances r)
    (hf : ∀ a, StopsInPlace (f a)) : StopsInPlace (r >>= f) := by
  intro tokens rest rejection h
  rcases bind_eq_error_iff.mp h with hstop | ⟨a, mid, hread, hstop⟩
  · exact hr hstop
  · have hmid : mid <:+ tokens := by
      have hsuffix := hadvances tokens
      rwa [hread] at hsuffix
    exact (hf a hstop).of_suffix hmid

/-- Behind a token that is taken a reader stops in place, or it stops at once and names it. -/
theorem stopsInPlace_next_bind {f : Token → TokenReader α}
    (hf : ∀ token, StopsInPlace (f token) ∨
      ∃ rejection, f token = fail rejection ∧ ∀ rest, rejection.LeavesOff (token :: rest) rest) :
    StopsInPlace (next >>= f) := by
  intro tokens rest rejection h
  cases tokens with
  | nil =>
    cases h
    rfl
  | cons token tail =>
    have hstop : f token tail = (.error rejection, rest) := h
    rcases hf token with hplace | ⟨named, hfail, hnamed⟩
    · exact (hplace hstop).of_suffix (List.suffix_cons token tail)
    · rw [hfail] at hstop
      cases hstop
      exact hnamed rest

theorem stopsInPlace_next : StopsInPlace next := by
  intro tokens rest rejection h
  cases tokens with
  | nil =>
    cases h
    rfl
  | cons token tail => cases h

theorem stopsInPlace_expect (expected : Token) : StopsInPlace (expect expected) := by
  refine stopsInPlace_next_bind fun actual => ?_
  split_ifs with hactual
  · exact .inl (stopsInPlace_pure ())
  · exact .inr ⟨_, rfl, fun rest => ⟨fun h => hactual h.symm, List.suffix_rfl⟩⟩

/-- A token of the kind is taken, and any other one is named. -/
private theorem stopsInPlace_next_ite {p : Token → Prop} [DecidablePred p] {f : Token → α}
    {named : Token → Rejection}
    (hnamed : ∀ token rest, (named token).LeavesOff (token :: rest) rest) :
    StopsInPlace (next >>= fun token =>
      if p token then pure (f token) else fail (named token)) := by
  refine stopsInPlace_next_bind fun token => ?_
  split_ifs
  · exact .inl (stopsInPlace_pure _)
  · exact .inr ⟨_, rfl, hnamed token⟩

theorem stopsInPlace_structPart : StopsInPlace structPart :=
  stopsInPlace_next_ite fun _ _ => List.suffix_rfl

theorem stopsInPlace_stringToken : StopsInPlace stringToken :=
  stopsInPlace_next_ite fun _ _ => List.suffix_rfl

/-! ### Comma lists -/

private theorem consOutcome_eq_error_iff {a : α}
    {outcome : Except Rejection (List α) × List Token} :
    consOutcome a outcome = (.error rejection, rest) ↔ outcome = (.error rejection, rest) := by
  obtain ⟨result, left⟩ := outcome
  cases result <;> simp [consOutcome, Except.map]

/-- The rounds of a comma list stop in place if the items do. -/
private theorem Rounds.leavesOff (hitem : StopsInPlace item) (hadvances : Advances item)
    {outcome : Except Rejection (List α) × List Token}
    (h : Rounds item stop trailing tokens outcome) (hstop : outcome = (.error rejection, rest)) :
    rejection.LeavesOff tokens rest := by
  induction h with
  | itemFails hread =>
    cases hstop
    exact hitem hread
  | closes => cases hstop
  | @noComma tokens mid _ a _ hread _ hcomma =>
    cases hstop
    have hmid := hadvances tokens
    rw [hread] at hmid
    exact (stopsInPlace_expect .comma hcomma).of_suffix hmid
  | closesBehindComma => cases hstop
  | @goesOn tokens mid _ a _ hread _ hcomma _ _ ih =>
    have hmid := hadvances tokens
    rw [hread, expect_eq_ok_iff.mp hcomma] at hmid
    have hbehind := (List.suffix_cons Token.comma _).trans hmid
    exact (ih (consOutcome_eq_error_iff.mp hstop)).of_suffix hbehind

theorem StopsInPlace.commaList (hitem : StopsInPlace item) (hadvances : Advances item)
    (stop : Token) (trailing : Bool) : StopsInPlace (commaList item stop trailing) := by
  intro tokens rest rejection h
  obtain ⟨hclosed⟩ | ⟨-, hrounds⟩ := (listRuns_iff hadvances).mpr h
  exact hrounds.leavesOff hitem hadvances rfl

section RoundStarts

variable (item stop trailing)

/-- **The rounds of a comma list come to a place**: it is where they start, or a round takes an item
and a comma before it and does not end the list. -/
inductive RoundStarts : List Token → List Token → Prop
  | here (tokens : List Token) : RoundStarts tokens tokens
  | behindComma {tokens mid rest place : List Token} {a : α} (hitem : item tokens = (.ok a, mid))
      (hopen : mid.head? ≠ some stop) (hcomma : mid = .comma :: rest)
      (hnext : ¬ (trailing = true ∧ rest.head? = some stop)) (hstarts : RoundStarts rest place) :
      RoundStarts tokens place

end RoundStarts

theorem RoundStarts.suffix (hadvances : Advances item) {place : List Token}
    (h : RoundStarts item stop trailing tokens place) : place <:+ tokens := by
  induction h with
  | here tokens => exact List.suffix_rfl
  | @behindComma tokens mid rest _ a hitem _ hcomma _ _ ih =>
    have hmid := hadvances tokens
    rw [hitem, hcomma] at hmid
    exact ih.trans ((List.suffix_cons Token.comma rest).trans hmid)

/-- Another reader that finds what the item reader finds comes to the same places. -/
theorem RoundStarts.imp {item' : TokenReader α} (hadvances : Advances item) {place : List Token}
    (hsame : ∀ part a mid, part <:+ tokens → item part = (.ok a, mid) → item' part = (.ok a, mid))
    (h : RoundStarts item stop trailing tokens place) :
    RoundStarts item' stop trailing tokens place := by
  induction h with
  | here tokens => exact .here tokens
  | @behindComma tokens mid rest _ a hitem hopen hcomma hnext _ ih =>
    have hmid := hadvances tokens
    rw [hitem, hcomma] at hmid
    have hbehind := (List.suffix_cons Token.comma rest).trans hmid
    refine .behindComma (hsame _ a mid List.suffix_rfl hitem) hopen hcomma hnext (ih ?_)
    intro part b left hpart
    exact hsame part b left (hpart.trans hbehind)

/-- **A rejection that is not of a single token is one of an item**, at a place that the rounds come
to. -/
theorem Rounds.exists_item_eq_error {outcome : Except Rejection (List α) × List Token}
    (h : Rounds item stop trailing tokens outcome) (hstop : outcome = (.error rejection, rest))
    (hcategory : rejection.category ≠ .grammatical) :
    ∃ place, RoundStarts item stop trailing tokens place ∧
      item place = (.error rejection, rest) := by
  induction h with
  | itemFails hread =>
    cases hstop
    exact ⟨_, .here _, hread⟩
  | closes => cases hstop
  | noComma _ _ hcomma =>
    cases hstop
    rcases expect_eq_error_iff.mp hcomma with ⟨-, rfl, -⟩ | ⟨actual, -, -, rfl⟩ <;>
      exact absurd rfl hcategory
  | closesBehindComma => cases hstop
  | goesOn hread hopen hcomma hnext _ ih =>
    obtain ⟨place, hstarts, hplace⟩ := ih (consOutcome_eq_error_iff.mp hstop)
    exact ⟨place, .behindComma hread hopen (expect_eq_ok_iff.mp hcomma) hnext hstarts, hplace⟩

/-- The same for whole lists, which are not closed at once. -/
theorem exists_item_eq_error_of_commaList (hadvances : Advances item)
    (h : commaList item stop trailing tokens = (.error rejection, rest))
    (hcategory : rejection.category ≠ .grammatical) :
    tokens.head? ≠ some stop ∧ ∃ place, RoundStarts item stop trailing tokens place ∧
      item place = (.error rejection, rest) := by
  obtain ⟨hclosed⟩ | ⟨hopen, hrounds⟩ := (listRuns_iff hadvances).mpr h
  exact ⟨hopen, hrounds.exists_item_eq_error rfl hcategory⟩

end TokenReader

end MoveText
