import Mathlib.Data.List.Forall2

/-!
# Results and related lists

When a result that is bound, mapped or made member by member is a value, and what the relation of
two lists one by one, `List.Forall₂`, says about their members.
-/

namespace Except

variable {ε α β : Type} {result : Except ε α}

theorem bind_eq_ok_iff {f : α → Except ε β} {b : β} :
    (result >>= f) = .ok b ↔ ∃ a, result = .ok a ∧ f a = .ok b := by
  cases result <;> simp [bind, Except.bind]

theorem map_eq_ok_iff {f : α → β} {b : β} :
    result.map f = .ok b ↔ ∃ a, result = .ok a ∧ b = f a := by
  cases result <;> simp [Except.map, eq_comm]

theorem map_eq_error_iff {f : α → β} {e : ε} : result.map f = .error e ↔ result = .error e := by
  cases result <;> simp [Except.map]

theorem mapM_eq_ok_iff {f : α → Except ε β} {as : List α} {bs : List β} :
    as.mapM f = .ok bs ↔ List.Forall₂ (fun a b => f a = .ok b) as bs := by
  induction as generalizing bs with
  | nil => simp [pure, Except.pure, eq_comm]
  | cons a as ih =>
    rw [List.mapM_cons, List.forall₂_cons_left_iff, bind_eq_ok_iff]
    simp only [bind_eq_ok_iff, ih]
    constructor
    · rintro ⟨b, hb, others, hothers, hbs⟩
      exact ⟨b, others, hb, hothers, (Except.ok.inj hbs).symm⟩
    · rintro ⟨b, others, hb, hothers, rfl⟩
      exact ⟨b, hb, others, hothers, rfl⟩

end Except

namespace List

variable {α β γ : Type} {R : α → β → Prop} {S : β → γ → Prop} {as : List α} {bs : List β}
  {cs : List γ}

theorem Forall₂.ne_nil_iff (h : Forall₂ R as bs) : as ≠ [] ↔ bs ≠ [] := by
  cases h <;> simp

theorem Forall₂.exists_of_mem_left (h : Forall₂ R as bs) {a : α} (ha : a ∈ as) :
    ∃ b ∈ bs, R a b := by
  obtain ⟨i, hi, rfl⟩ := getElem_of_mem ha
  have hi' : i < bs.length := h.length_eq ▸ hi
  exact ⟨bs[i], getElem_mem hi', h.get hi hi'⟩

theorem Forall₂.exists_of_mem_right (h : Forall₂ R as bs) {b : β} (hb : b ∈ bs) :
    ∃ a ∈ as, R a b := by
  have hflip : Forall₂ (fun b a => R a b) bs as := .flip h
  exact hflip.exists_of_mem_left hb

/-- Members are related through a third each exactly if the lists are through a third list. -/
theorem forall₂_exists_iff :
    Forall₂ (fun a c => ∃ b, R a b ∧ S b c) as cs ↔ ∃ bs, Forall₂ R as bs ∧ Forall₂ S bs cs := by
  constructor
  · intro h
    induction h with
    | nil => exact ⟨[], .nil, .nil⟩
    | cons hmember _ ih =>
      obtain ⟨b, hR, hS⟩ := hmember
      obtain ⟨bs, hRs, hSs⟩ := ih
      exact ⟨b :: bs, .cons hR hRs, .cons hS hSs⟩
  · rintro ⟨bs, hRs, hSs⟩
    induction hRs generalizing cs with
    | nil =>
      cases hSs
      exact .nil
    | @cons a b as bs hR _ ih =>
      obtain ⟨c, others, hS, hothers, rfl⟩ := forall₂_cons_left_iff.mp hSs
      exact .cons ⟨b, hR, hS⟩ (ih hothers)

end List
