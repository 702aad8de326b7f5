import MoveText.Proofs.Text.Hex
import MoveText.Text.Quoted

/-!
# Quoted texts differ

Between quotes a character is written in one of three ways, which `Text.Escapes` lists: by a
backslash and a letter, by a backslash and its code, or as it is. What is written tells which of
them it is and for which character, and where it ends, so no escapes imitate one another. Hence
different texts are quoted differently (`Text.quoted_injective`).
-/

namespace MoveText.Text

variable {c d : Char} {w w' s t : Text}

/-- The characters that are written as a backslash and a letter, each with its letter. -/
def letterEscapes : List (Char × Char) :=
  [('"', '"'), ('\\', '\\'), ('\x08', 'b'), ('\x0c', 'f'), ('\n', 'n'), ('\r', 'r'), ('\t', 't')]

/-- **The ways to write a character** between quotes. -/
inductive Escapes : Char → Text → Prop
  | letter {c letter : Char} (h : (c, letter) ∈ letterEscapes) : Escapes c ['\\', letter]
  | code {c : Char} (h : c.toNat < 32) :
      Escapes c ['\\', 'u', '0', '0', Nat.digitChar (c.toNat / 16), Nat.digitChar (c.toNat % 16)]
  | plain {c : Char} (hquote : c ≠ '"') (hbackslash : c ≠ '\\') : Escapes c [c]

private theorem escapes_escapeChar (c : Char) : Escapes c (escapeChar c) := by
  rw [escapeChar]
  split_ifs with hquote hbackslash hb hf hn hr ht hcontrol
  · exact .letter (by simp [letterEscapes, hquote])
  · exact .letter (by simp [letterEscapes, hbackslash])
  · exact .letter (by simp [letterEscapes, hb])
  · exact .letter (by simp [letterEscapes, hf])
  · exact .letter (by simp [letterEscapes, hn])
  · exact .letter (by simp [letterEscapes, hr])
  · exact .letter (by simp [letterEscapes, ht])
  · exact .code hcontrol
  · exact .plain hquote hbackslash

/-- No two characters have the same letter. -/
private theorem eq_of_mem_letterEscapes {letter : Char} (h : (c, letter) ∈ letterEscapes)
    (h' : (d, letter) ∈ letterEscapes) : c = d := by
  have hall : ∀ p ∈ letterEscapes, ∀ q ∈ letterEscapes, p.2 = q.2 → p.1 = q.1 := by decide
  exact hall _ h _ h' rfl

/-- The letter that announces a code is none of the others. -/
private theorem ne_u_of_mem_letterEscapes {letter : Char} (h : (c, letter) ∈ letterEscapes) :
    letter ≠ 'u' := by
  have hall : ∀ p ∈ letterEscapes, p.2 ≠ 'u' := by decide
  exact hall _ h

/-- Two digits tell a code below 256. -/
private theorem eq_of_digitChar_eq (hc : c.toNat < 256) (hd : d.toNat < 256)
    (hhigh : Nat.digitChar (c.toNat / 16) = Nat.digitChar (d.toNat / 16))
    (hlow : Nat.digitChar (c.toNat % 16) = Nat.digitChar (d.toNat % 16)) : c = d := by
  have hdigit : ∀ {m n : Nat}, m < 16 → n < 16 → Nat.digitChar m = Nat.digitChar n → m = n := by
    intro m n hm hn h
    rw [← hexDigitValue_digitChar hm, h, hexDigitValue_digitChar hn]
  have hhigh' := hdigit (by omega) (by omega) hhigh
  have hlow' := hdigit (by omega) (by omega) hlow
  exact Char.toNat_inj.mp (by omega)

namespace Escapes

private theorem ne_nil (h : Escapes c w) : w ≠ [] := by
  cases h <;> simp

/-- **What is written first tells the character**, whatever follows it. -/
theorem append_inj (h : Escapes c w) (h' : Escapes d w') (heq : w ++ s = w' ++ t) :
    c = d ∧ s = t := by
  cases h with
  | letter hc =>
    cases h' with
    | letter hd =>
      simp only [List.cons_append, List.nil_append, List.cons.injEq, true_and] at heq
      obtain ⟨rfl, hrest⟩ := heq
      exact ⟨eq_of_mem_letterEscapes hc hd, hrest⟩
    | code hd =>
      simp only [List.cons_append, List.cons.injEq, true_and] at heq
      exact absurd heq.1 (ne_u_of_mem_letterEscapes hc)
    | plain _ hbackslash => exact absurd (List.cons.inj heq).1.symm hbackslash
  | code hc =>
    cases h' with
    | letter hd =>
      simp only [List.cons_append, List.cons.injEq, true_and] at heq
      exact absurd heq.1.symm (ne_u_of_mem_letterEscapes hd)
    | code hd =>
      simp only [List.cons_append, List.nil_append, List.cons.injEq, true_and] at heq
      obtain ⟨hhigh, hlow, hrest⟩ := heq
      exact ⟨eq_of_digitChar_eq (by omega) (by omega) hhigh hlow, hrest⟩
    | plain _ hbackslash => exact absurd (List.cons.inj heq).1.symm hbackslash
  | plain _ hbackslash =>
    cases h' with
    | letter => exact absurd (List.cons.inj heq).1 hbackslash
    | code => exact absurd (List.cons.inj heq).1 hbackslash
    | plain => exact List.cons.inj heq

end Escapes

/-- **Different texts are quoted differently.** -/
theorem quoted_injective : Function.Injective quoted := by
  intro s t heq
  have hbody : s.flatMap escapeChar = t.flatMap escapeChar :=
    List.append_cancel_right (List.cons.inj heq).2
  clear heq
  induction s generalizing t with
  | nil =>
    cases t with
    | nil => rfl
    | cons d t =>
      have hnil := (List.append_eq_nil_iff.mp hbody.symm).1
      exact absurd hnil (escapes_escapeChar d).ne_nil
  | cons c s ih =>
    cases t with
    | nil =>
      have hnil := (List.append_eq_nil_iff.mp hbody).1
      exact absurd hnil (escapes_escapeChar c).ne_nil
    | cons d t =>
      rw [List.flatMap_cons, List.flatMap_cons] at hbody
      obtain ⟨rfl, hrest⟩ := (escapes_escapeChar c).append_inj (escapes_escapeChar d) hbody
      rw [ih hrest]

end MoveText.Text
