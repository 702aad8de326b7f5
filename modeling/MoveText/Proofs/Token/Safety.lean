import MoveText.Proofs.Parse

/-!
# How readers of a text can end

`Rejection.Arises` are the rejections for which the tokens of a text can be turned down, each with
what makes it true. A reader `Meets` a condition if, on tokens that are left of a text, it either
finds a value with this condition and leaves tokens of the same form, or stops with a rejection that
arises. No reader that is put together from such readers takes a token behind the end, for it stops
at the end at the latest (`meets_next_bind`), and a comma list never runs out of rounds
(`Meets.commaList`).
-/

namespace MoveText

/-- **The rejections that a text can meet**, with the reason for each. Nesting matters only where
`nests` holds. -/
inductive Rejection.Arises (nests : Prop) : Rejection → Prop
  | lexical (cause : LexicalCause) (offset : Int) : Arises nests (.lexical cause offset)
  | mismatch {expected actual : Token} (hne : actual ≠ expected) :
      Arises nests (.mismatch expected actual)
  | notAName {actual : Token} (hkind : actual.kind ≠ .name) : Arises nests (.notAName actual)
  | unexpected (wanted : Wanted) (actual : Token) : Arises nests (.unexpected wanted actual)
  | tooDeep (hnests : nests) (limit : Int) : Arises nests (.tooDeep limit limit)
  | longAddress {digits : Text} (hdigits : ∀ c ∈ digits, Text.isHexDigit c)
      (hlong : 64 < digits.length) : Arises nests (.longAddress ('0' :: 'x' :: digits))
  | overflow {width : Width} {digits : Text} (hdigits : ∀ c ∈ digits, c.isDigit)
      (hgreat : width.max < Text.digitsValue 10 digits) : Arises nests (.overflow width digits)
  | oddBytes {digits : Text} (hdigits : ∀ c ∈ digits, Text.isHexDigit c)
      (hodd : digits.length % 2 = 1) : Arises nests (.oddBytes digits)

/-- What arises is one of an input, so it is logged. -/
theorem Rejection.Arises.concernsInput {nests : Prop} {rejection : Rejection}
    (h : rejection.Arises nests) : rejection.concernsInput = true := by
  cases h <;> rfl

namespace TokenReader

variable {α β : Type} {nests : Prop} {Q : α → Prop} {R : β → Prop}

/-- On the given tokens, the reader finds a value with the condition and leaves tokens up to the
end, or stops with a rejection that arises. -/
def MeetsOn (nests : Prop) (Q : α → Prop) (r : TokenReader α) (tokens : List Token) : Prop :=
  (∀ a rest, r tokens = (.ok a, rest) → Q a ∧ Token.UpToEnd rest) ∧
    ∀ rejection rest, r tokens = (.error rejection, rest) → rejection.Arises nests

/-- **A reader meets a condition**: whatever tokens are left of a text, it ends with a value of that
condition or with a rejection that arises. -/
def Meets (nests : Prop) (Q : α → Prop) (r : TokenReader α) : Prop :=
  ∀ tokens, Token.UpToEnd tokens → MeetsOn nests Q r tokens

/-! ### Readers put together -/

theorem MeetsOn.bind {r : TokenReader α} {f : α → TokenReader β} {tokens : List Token}
    (hr : MeetsOn nests Q r tokens)
    (hf : ∀ a rest, Q a → Token.UpToEnd rest → r tokens = (.ok a, rest) →
      MeetsOn nests R (f a) rest) : MeetsOn nests R (r >>= f) tokens := by
  rcases h : r tokens with ⟨rejection | a, mid⟩
  · rw [MeetsOn, bind_of_error h]
    exact ⟨by simp, fun _ _ hstop => by cases hstop; exact hr.2 _ _ h⟩
  · obtain ⟨hQ, hmid⟩ := hr.1 _ _ h
    rw [MeetsOn, bind_of_ok h]
    exact hf a mid hQ hmid h

theorem Meets.bind {r : TokenReader α} {f : α → TokenReader β} (hr : Meets nests Q r)
    (hf : ∀ a, Q a → Meets nests R (f a)) : Meets nests R (r >>= f) := fun tokens htokens =>
  (hr tokens htokens).bind fun a rest hQ hrest _ => hf a hQ rest hrest

/-- A condition may be weakened. -/
theorem Meets.imp {Q' : α → Prop} {r : TokenReader α} (hr : Meets nests Q r)
    (hQ : ∀ a, Q a → Q' a) : Meets nests Q' r := fun tokens htokens =>
  ⟨fun a rest h => ((hr tokens htokens).1 a rest h).imp_left (hQ a), (hr tokens htokens).2⟩

theorem meets_pure {a : α} (hQ : Q a) : Meets nests Q (pure a : TokenReader α) :=
  fun _ htokens => ⟨fun _ _ h => by obtain ⟨rfl, rfl⟩ := pure_eq_ok_iff.mp h; exact ⟨hQ, htokens⟩,
    fun _ _ h => by cases h⟩

theorem meets_fail {rejection : Rejection} (h : rejection.Arises nests) :
    Meets nests Q (fail rejection : TokenReader α) :=
  fun _ _ => ⟨fun _ _ hok => (fail_eq_ok_iff.mp hok).elim, fun _ _ hstop => by cases hstop; exact h⟩

theorem meets_nextIs (token : Token) : Meets nests (fun _ => True) (nextIs token) :=
  fun _ htokens => ⟨fun _ _ h => by cases h; exact ⟨trivial, htokens⟩, fun _ _ h => by cases h⟩

/-- **Nothing is taken behind the end**: a reader that takes a token and stops at the end goes on
with a spelled one only. -/
theorem meets_next_bind {f : Token → TokenReader β}
    (hspelled : ∀ token word, token.Spells word → Meets nests R (f token))
    (heof : ∃ rejection, f .eof = fail rejection ∧ rejection.Arises nests) :
    Meets nests R (next >>= f) := by
  intro tokens htokens
  cases htokens with
  | eof =>
    obtain ⟨rejection, hf, harises⟩ := heof
    have hstop : (next >>= f) [.eof] = (.error rejection, []) := by
      rw [bind_of_ok (next_eq_ok_iff.mpr rfl), hf]
      rfl
    rw [MeetsOn, hstop]
    exact ⟨by simp, fun _ _ h => by cases h; exact harises⟩
  | @cons token word rest hspells hrest =>
    have hgo : (next >>= f) (token :: rest) = f token rest := bind_of_ok (next_eq_ok_iff.mpr rfl)
    rw [MeetsOn, hgo]
    exact hspelled token word hspells rest hrest

/-! ### The readers of single tokens -/

/-- A token that is not the end is expected in vain or stands there. -/
theorem meets_expect {token : Token} (hne : token ≠ .eof) :
    Meets nests (fun _ => True) (expect token) := by
  refine meets_next_bind (fun actual word _ => ?_) ⟨.mismatch token .eof, ?_, .mismatch hne.symm⟩
  · split_ifs with h
    · exact meets_pure trivial
    · exact meets_fail (.mismatch h)
  · rw [if_neg hne.symm]

/-- A name that is found has a text, which is an identifier. -/
theorem meets_structPart :
    Meets nests (fun part => ∃ s, part = some s ∧ Identifier.isValid s) structPart := by
  refine meets_next_bind (fun actual word hspells => ?_)
    ⟨.notAName .eof, rfl, .notAName (by decide)⟩
  split_ifs with hkind
  · obtain ⟨kind, value⟩ := actual
    obtain rfl : kind = .name := hkind
    exact meets_pure (Token.Occurs.name_value (.inr ⟨word, hspells⟩))
  · exact meets_fail (.notAName hkind)

theorem meets_string : Meets nests (fun _ => True) string := by
  refine Meets.bind (Q := fun _ => True) ?_ fun token _ => meets_pure trivial
  refine meets_next_bind (fun actual word _ => ?_) ⟨_, rfl, .unexpected .string .eof⟩
  split_ifs
  · exact meets_pure trivial
  · exact meets_fail (.unexpected .string actual)

/-! ### Comma lists -/

/-- The loop never runs out of rounds: each of them takes a comma, and there is one round more than
there are tokens. -/
theorem Meets.itemsWithin {item : TokenReader α} (hitem : Meets nests Q item)
    (hadvances : Advances item) (stop : Token) (trailing : Bool) {rounds : Nat}
    {tokens : List Token} (htokens : Token.UpToEnd tokens) (hrounds : tokens.length < rounds) :
    MeetsOn nests (fun found => ∀ a ∈ found, Q a) (itemsWithin item stop trailing rounds)
      tokens := by
  induction rounds generalizing tokens with
  | zero => exact absurd hrounds (Nat.not_lt_zero _)
  | succ rounds ih =>
    refine (hitem tokens htokens).bind fun first mid hfirst hmid hread => ?_
    have hle : mid.length ≤ tokens.length := by
      have hsuffix := hadvances tokens
      rw [hread] at hsuffix
      exact hsuffix.length_le
    refine (meets_nextIs stop mid hmid).bind fun closes _ _ hmid hahead => ?_
    obtain ⟨-, rfl⟩ := nextIs_eq_ok_iff.mp hahead
    split_ifs
    · exact meets_pure (by simpa using hfirst) mid hmid
    · refine (meets_expect (by decide) mid hmid).bind fun _ rest _ hrest hcomma => ?_
      rw [expect_eq_ok_iff.mp hcomma, List.length_cons] at hle
      refine (meets_nextIs stop rest hrest).bind fun closes _ _ hrest hahead => ?_
      obtain ⟨-, rfl⟩ := nextIs_eq_ok_iff.mp hahead
      split_ifs
      · exact meets_pure (by simpa using hfirst) rest hrest
      · refine (ih hrest (by omega)).bind fun others last hothers hlast _ => ?_
        exact meets_pure (List.forall_mem_cons.mpr ⟨hfirst, hothers⟩) last hlast

/-- A comma list meets the condition of its items. -/
theorem Meets.commaList {item : TokenReader α} (hitem : Meets nests Q item)
    (hadvances : Advances item) (stop : Token) (trailing : Bool) :
    Meets nests (fun found => ∀ a ∈ found, Q a) (commaList item stop trailing) := by
  intro tokens htokens
  rw [MeetsOn, TokenReader.commaList]
  split_ifs
  · exact meets_pure (by simp) tokens htokens
  · exact hitem.itemsWithin hadvances stop trailing htokens (Nat.lt_succ_self _)

/-! ### Whole texts -/

/-- **How reading a whole text ends**: with a value of the condition, or with a rejection that
arises. -/
theorem Meets.readText {reader : TokenReader α} (hreader : Meets nests Q reader) (input : Text) :
    (∃ a, reader.readText input = .ok a ∧ Q a) ∨
      ∃ rejection, reader.readText input = .error rejection ∧ rejection.Arises nests := by
  cases hwords : Token.wordsOfText input with
  | error rejection =>
    refine .inr ⟨rejection, by rw [TokenReader.readText, hwords]; rfl, ?_⟩
    obtain ⟨cause, place, rfl⟩ := Token.lexical_of_wordsOfText hwords
    exact .lexical cause place
  | ok tokens =>
    have htokens := hreader tokens (Token.upToEnd_of_wordsOfText hwords)
    have hwhole : reader.readText input =
        ((reader >>= fun value => expect .eof >>= fun _ => pure value) tokens).1 := by
      rw [TokenReader.readText, hwords]
      rfl
    rcases h : reader tokens with ⟨rejection | a, rest⟩
    · rw [bind_of_error h] at hwhole
      exact .inr ⟨rejection, hwhole, htokens.2 _ _ h⟩
    · obtain ⟨hQ, hrest⟩ := htokens.1 _ _ h
      rw [bind_of_ok h] at hwhole
      -- the end has to follow, and if anything else does, it is spelled
      cases hrest with
      | eof =>
        rw [bind_of_ok (a := ()) (expect_eq_ok_iff.mpr rfl)] at hwhole
        exact .inl ⟨a, hwhole, hQ⟩
      | @cons token word others hspells hothers =>
        have hne : token ≠ .eof := by
          rintro rfl
          exact Token.not_spells_eof word hspells
        rw [bind_of_error (expect_eq_error hne)] at hwhole
        exact .inr ⟨.mismatch .eof token, hwhole, .mismatch hne⟩

end TokenReader

end MoveText
