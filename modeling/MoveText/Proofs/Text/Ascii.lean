import MoveText.Proofs.Text.Run
import MoveText.Text.Lowercase

/-!
# Text of seven bits

What holds of the first 128 characters can be checked on each of them (`of_isAscii`). Text of such
characters has as many units as characters and is lowercased character by character.
-/

namespace MoveText.Text

/-- What holds of the first 128 characters holds of all characters of seven bits. -/
theorem of_isAscii {P : Char → Prop} (h : ∀ n < 128, P (Char.ofNat n)) {c : Char}
    (hc : isAscii c) : P c := by
  rw [← Char.ofNat_toNat c]
  exact h c.toNat (isAscii_iff.mp hc)

theorem isAscii_of_isHexDigit {c : Char} (hc : isHexDigit c) : isAscii c := by
  rw [isAscii_iff]
  simp only [isHexDigit_iff, Char.isDigit_iff_toNat, Char.reduceToNat] at hc
  omega

theorem isHexDigit_of_isLowerHexDigit {c : Char} (hc : isLowerHexDigit c) : isHexDigit c := by
  rw [isHexDigit_iff]
  rw [isLowerHexDigit_iff] at hc
  exact hc.imp_right .inl

theorem isLowerHexDigit_toLower {c : Char} (hc : isHexDigit c) : isLowerHexDigit c.toLower :=
  of_isAscii (P := fun c => isHexDigit c → isLowerHexDigit c.toLower) (by decide)
    (isAscii_of_isHexDigit hc) hc

private theorem toLower_of_isLowerHexDigit {c : Char} (hc : isLowerHexDigit c) : c.toLower = c :=
  of_isAscii (P := fun c => isLowerHexDigit c → c.toLower = c) (by decide)
    (isAscii_of_isHexDigit (isHexDigit_of_isLowerHexDigit hc)) hc

theorem map_toLower_of_isLowerHexDigit {s : Text} (hs : ∀ c ∈ s, isLowerHexDigit c) :
    s.map Char.toLower = s :=
  (List.map_congr_left fun c hc => toLower_of_isLowerHexDigit (hs c hc)).trans (List.map_id s)

/-! ### What lowercasing tells of a character -/

theorem isHexDigit_of_isLowerHexDigit_toLower {c : Char} (hc : isAscii c)
    (h : isLowerHexDigit c.toLower) : isHexDigit c :=
  of_isAscii (P := fun c => isLowerHexDigit c.toLower → isHexDigit c) (by decide) hc h

theorem eq_zero_of_toLower {c : Char} (hc : isAscii c) (h : c.toLower = '0') : c = '0' :=
  of_isAscii (P := fun c => c.toLower = '0' → c = '0') (by decide) hc h

theorem eq_marker_of_toLower {c : Char} (hc : isAscii c) (h : c.toLower = 'x') :
    c = 'x' ∨ c = 'X' :=
  of_isAscii (P := fun c => c.toLower = 'x' → c = 'x' ∨ c = 'X') (by decide) hc h

/-- Of the characters of marked digits, none can come from a letter beyond the first 128. -/
theorem isAscii_of_isLowerHexDigit_or {c : Char} (hc : isLowerHexDigit c ∨ c = 'x') :
    isAscii c ∧ c ≠ 'i' ∧ c ≠ 'k' := by
  rcases hc with hc | rfl
  · refine ⟨isAscii_of_isHexDigit (isHexDigit_of_isLowerHexDigit hc), ?_, ?_⟩ <;>
      (rintro rfl; exact absurd hc (by decide))
  · decide

/-! ### Text of seven bits -/

/-- A text of seven-bit characters has as many units as characters. -/
theorem units_of_isAscii {s : Text} (hs : ∀ c ∈ s, isAscii c) : units s = s.length := by
  induction s with
  | nil => rfl
  | cons c s ih =>
    have hc : c.toNat < 128 := isAscii_iff.mp (hs c List.mem_cons_self)
    rw [units, ih fun d hd => hs d (List.mem_cons_of_mem c hd), charUnits, if_pos (by omega),
      List.length_cons, Nat.add_comm]

/-- Among seven-bit characters there is no sigma, so each is lowercased on its own. -/
theorem lowercase_of_isAscii {s : Text} (hs : ∀ c ∈ s, isAscii c) :
    lowercase s = s.map Char.toLower := by
  -- what stands before a character matters for a sigma only
  suffices h : ∀ before, lowercaseAfter before s = s.map Char.toLower from h []
  induction s with
  | nil => exact fun _ => rfl
  | cons c s ih =>
    intro before
    have hc : c.toNat < 128 := isAscii_iff.mp (hs c List.mem_cons_self)
    have hsigma : c ≠ '\u03a3' := by
      rintro rfl
      exact absurd hc (by decide)
    rw [lowercaseAfter, if_neg hsigma, lowercaseChar, if_pos hc,
      ih fun d hd => hs d (List.mem_cons_of_mem c hd)]
    rfl

end MoveText.Text
