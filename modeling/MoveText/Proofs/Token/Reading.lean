import Mathlib.Tactic.SplitIfs
import MoveText.Token.Reader

/-!
# What readers of tokens do

For each of the primitive readers a lemma `…_eq_ok_iff` says on which tokens it succeeds, and with
what; `bind_eq_ok_iff` puts them together, so a reader never has to be run by hand. A reader
`Advances` if what it leaves, whether it succeeds or not, is an end part of what it was given. All
readers that are put together from such readers advance.
-/

namespace MoveText.TokenReader

variable {α β : Type} {tokens rest : List Token}

/-! ### When readers succeed -/

/-- After a reader that succeeds, the next one goes on where it stopped. -/
theorem bind_of_ok {r : TokenReader α} {f : α → TokenReader β} {a : α}
    (h : r tokens = (.ok a, rest)) : (r >>= f) tokens = f a rest := by
  dsimp only [bind]
  rw [h]

/-- A reader that fails is where it all ends. -/
theorem bind_of_error {r : TokenReader α} {f : α → TokenReader β} {rejection : Rejection}
    (h : r tokens = (.error rejection, rest)) : (r >>= f) tokens = (.error rejection, rest) := by
  dsimp only [bind]
  rw [h]

@[simp]
theorem pure_eq_ok_iff {a b : α} :
    (pure a : TokenReader α) tokens = (.ok b, rest) ↔ a = b ∧ tokens = rest := by
  change (Except.ok a, tokens) = (.ok b, rest) ↔ _
  simp

/-- A reader followed by another succeeds exactly if both do. -/
theorem bind_eq_ok_iff {r : TokenReader α} {f : α → TokenReader β} {b : β} :
    (r >>= f) tokens = (.ok b, rest) ↔
      ∃ a mid, r tokens = (.ok a, mid) ∧ f a mid = (.ok b, rest) := by
  rcases hr : r tokens with ⟨rejection | a, mid⟩
  · simp [bind_of_error hr]
  · simp [bind_of_ok hr, and_assoc]

@[simp]
theorem fail_eq_ok_iff {rejection : Rejection} {a : α} :
    fail rejection tokens = (.ok a, rest) ↔ False := by
  simp [fail]

@[simp]
theorem ofExcept_eq_ok_iff {result : Except Rejection α} {a : α} :
    ofExcept result tokens = (.ok a, rest) ↔ result = .ok a ∧ tokens = rest := by
  simp [ofExcept]

@[simp]
theorem next_eq_ok_iff {token : Token} :
    next tokens = (.ok token, rest) ↔ tokens = token :: rest := by
  cases tokens <;> simp [next]

@[simp]
theorem nextIs_eq_ok_iff {token : Token} {ahead : Bool} :
    nextIs token tokens = (.ok ahead, rest) ↔
      (tokens.head? == some token) = ahead ∧ tokens = rest := by
  simp [nextIs]

@[simp]
theorem expect_eq_ok_iff {expected : Token} {u : Unit} :
    expect expected tokens = (.ok u, rest) ↔ tokens = expected :: rest := by
  rw [expect, bind_eq_ok_iff]
  constructor
  · rintro ⟨actual, mid, hnext, h⟩
    rw [next_eq_ok_iff] at hnext
    split_ifs at h with heq
    · rw [hnext, heq, (pure_eq_ok_iff.mp h).2]
    · exact (fail_eq_ok_iff.mp h).elim
  · rintro rfl
    exact ⟨expected, rest, next_eq_ok_iff.mpr rfl, by simp⟩

/-- Another token than the expected one is turned down. -/
theorem expect_eq_error {expected actual : Token} (hne : actual ≠ expected) :
    expect expected (actual :: rest) = (.error (.mismatch expected actual), rest) := by
  rw [expect, bind_of_ok (next_eq_ok_iff.mpr rfl), if_neg hne]
  rfl

@[simp]
theorem structPart_eq_ok_iff {part : Option Text} :
    structPart tokens = (.ok part, rest) ↔ tokens = ⟨.name, part⟩ :: rest := by
  rw [structPart, bind_eq_ok_iff]
  constructor
  · rintro ⟨⟨kind, value⟩, mid, hnext, h⟩
    rw [next_eq_ok_iff] at hnext
    dsimp only at h
    split_ifs at h with hkind
    · obtain ⟨rfl, rfl⟩ := pure_eq_ok_iff.mp h
      rw [hnext, hkind]
    · exact (fail_eq_ok_iff.mp h).elim
  · rintro rfl
    exact ⟨⟨.name, part⟩, rest, next_eq_ok_iff.mpr rfl, by simp⟩

/-! ### Readers go forward -/

/-- What the reader leaves is always an end part of what it is given. -/
def Advances (r : TokenReader α) : Prop := ∀ tokens, (r tokens).2 <:+ tokens

theorem advances_pure (a : α) : Advances (pure a : TokenReader α) := List.suffix_refl

theorem advances_fail (rejection : Rejection) : Advances (fail rejection : TokenReader α) :=
  List.suffix_refl

theorem advances_ofExcept (result : Except Rejection α) : Advances (ofExcept result) :=
  List.suffix_refl

theorem advances_nextIs (token : Token) : Advances (nextIs token) := List.suffix_refl

theorem advances_next : Advances next := fun tokens => by
  cases tokens with
  | nil => exact List.suffix_refl []
  | cons token rest => exact List.suffix_cons token rest

theorem Advances.bind {r : TokenReader α} {f : α → TokenReader β} (hr : Advances r)
    (hf : ∀ a, Advances (f a)) : Advances (r >>= f) := fun tokens => by
  have hmid := hr tokens
  rcases h : r tokens with ⟨rejection | a, mid⟩ <;> rw [h] at hmid
  · rw [bind_of_error h]
    exact hmid
  · rw [bind_of_ok h]
    exact (hf a mid).trans hmid

theorem advances_expect (expected : Token) : Advances (expect expected) :=
  advances_next.bind fun actual => by
    split_ifs
    · exact advances_pure ()
    · exact advances_fail _

theorem advances_structPart : Advances structPart :=
  advances_next.bind fun token => by
    split_ifs
    · exact advances_pure _
    · exact advances_fail _

theorem advances_string : Advances string :=
  (advances_next.bind fun token => by
    split_ifs
    · exact advances_pure _
    · exact advances_fail _).bind fun _ => advances_pure _

theorem advances_itemsWithin {item : TokenReader α} (hitem : Advances item) (stop : Token)
    (trailing : Bool) (rounds : Nat) : Advances (itemsWithin item stop trailing rounds) := by
  induction rounds with
  | zero => exact advances_fail _
  | succ rounds ih =>
    refine hitem.bind fun first => (advances_nextIs stop).bind fun closes => ?_
    split_ifs
    · exact advances_pure _
    · refine (advances_expect .comma).bind fun _ => (advances_nextIs stop).bind fun closes => ?_
      split_ifs
      · exact advances_pure _
      · exact ih.bind fun others => advances_pure _

theorem advances_commaList {item : TokenReader α} (hitem : Advances item) (stop : Token)
    (trailing : Bool) : Advances (commaList item stop trailing) := fun tokens => by
  rw [commaList]
  split_ifs
  · exact List.suffix_refl tokens
  · exact advances_itemsWithin hitem stop trailing _ tokens

end MoveText.TokenReader
