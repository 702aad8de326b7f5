import Mathlib.Tactic.SplitIfs
import MoveText.Text.Ascii

/-!
# Runs of characters

The lexer takes whole runs of one class of characters off a text. `Text.startsIn` says whether a
text starts with a character of a class, so a run `w` is complete in `w ++ rest` when `rest` does
not start in its class; `takeWhile_run` and `dropWhile_run` say that such a run is what
`List.takeWhile` takes and `List.dropWhile` leaves out. The classes themselves are given by ranges
of code points, which settles how they overlap.
-/

namespace MoveText.Text

variable {p : Char → Bool}

/-- Whether a text starts with a character of a class. -/
def startsIn (p : Char → Bool) : Text → Bool
  | [] => false
  | c :: _ => p c

@[simp]
theorem startsIn_nil (p : Char → Bool) : startsIn p [] = false := rfl

@[simp]
theorem startsIn_cons (p : Char → Bool) (c : Char) (s : Text) : startsIn p (c :: s) = p c := rfl

theorem exists_cons_of_startsIn {s : Text} (hs : startsIn p s) :
    ∃ c rest, s = c :: rest ∧ p c := by
  cases s with
  | nil => cases hs
  | cons c rest => exact ⟨c, rest, rfl, hs⟩

/-- No text starts in the empty class. -/
theorem startsIn_empty (s : Text) : startsIn (fun _ => false) s = false := by
  cases s <;> rfl

/-- A text that does not start in a class does not start in a smaller one. -/
theorem startsIn_eq_false_of_imp {q : Char → Bool} (hpq : ∀ c, p c → q c) {s : Text}
    (hs : startsIn q s = false) : startsIn p s = false := by
  cases s with
  | nil => rfl
  | cons c s =>
    rw [startsIn_cons, Bool.eq_false_iff] at hs ⊢
    exact fun hc => hs (hpq c hc)

/-- What a text starts with is told by its front part, unless that is empty. -/
theorem startsIn_append {w : Text} (hw : w ≠ []) (rest : Text) :
    startsIn p (w ++ rest) = startsIn p w := by
  cases w with
  | nil => exact absurd rfl hw
  | cons c w => rfl

/-- What is left of a text without its run does not go on with that run. -/
theorem startsIn_dropWhile (p : Char → Bool) (s : Text) : startsIn p (s.dropWhile p) = false := by
  induction s with
  | nil => rfl
  | cons c s ih =>
    rw [List.dropWhile_cons]
    split_ifs with h
    · exact ih
    · simpa using h

/-- A run is empty exactly if the text does not start in its class. -/
theorem takeWhile_eq_nil_iff {s : Text} : s.takeWhile p = [] ↔ startsIn p s = false := by
  cases s with
  | nil => simp
  | cons c s => cases h : p c <;> simp [h]

theorem takeWhile_ne_nil_iff {s : Text} : s.takeWhile p ≠ [] ↔ startsIn p s := by
  rw [Ne, takeWhile_eq_nil_iff, Bool.not_eq_false]

theorem dropWhile_of_startsIn_eq_false {s : Text} (hs : startsIn p s = false) :
    s.dropWhile p = s := by
  cases s with
  | nil => rfl
  | cons c s => rw [List.dropWhile_cons_of_neg (by simpa using hs)]

/-- A complete run is taken as it is. -/
theorem takeWhile_run {w rest : Text} (hw : ∀ c ∈ w, p c) (hrest : startsIn p rest = false) :
    (w ++ rest).takeWhile p = w := by
  rw [List.takeWhile_append_of_pos hw, takeWhile_eq_nil_iff.mpr hrest, List.append_nil]

/-- What follows a complete run is left. -/
theorem dropWhile_run {w rest : Text} (hw : ∀ c ∈ w, p c) (hrest : startsIn p rest = false) :
    (w ++ rest).dropWhile p = rest := by
  rw [List.dropWhile_append_of_pos hw, dropWhile_of_startsIn_eq_false hrest]

/-! ### The classes by code points -/

theorem isUpper_iff {c : Char} : c.isUpper ↔ 65 ≤ c.toNat ∧ c.toNat ≤ 90 := by
  change decide (65 ≤ c.val ∧ c.val ≤ 90) = true ↔ _
  rw [decide_eq_true_iff, UInt32.le_iff_toNat_le, UInt32.le_iff_toNat_le]
  rfl

theorem isLower_iff {c : Char} : c.isLower ↔ 97 ≤ c.toNat ∧ c.toNat ≤ 122 := by
  change (decide (97 ≤ c.val) && decide (c.val ≤ 122)) = true ↔ _
  rw [Bool.and_eq_true_iff, decide_eq_true_iff, decide_eq_true_iff, UInt32.le_iff_toNat_le,
    UInt32.le_iff_toNat_le]
  rfl

theorem isAlpha_iff {c : Char} :
    c.isAlpha ↔ (65 ≤ c.toNat ∧ c.toNat ≤ 90) ∨ (97 ≤ c.toNat ∧ c.toNat ≤ 122) := by
  rw [← isUpper_iff, ← isLower_iff]
  exact Bool.or_eq_true_iff

theorem isAlphanum_iff {c : Char} : c.isAlphanum ↔ c.isAlpha ∨ c.isDigit := Bool.or_eq_true_iff

theorem isHexDigit_iff {c : Char} :
    isHexDigit c ↔ c.isDigit ∨ (97 ≤ c.toNat ∧ c.toNat ≤ 102) ∨ (65 ≤ c.toNat ∧ c.toNat ≤ 70) := by
  simp [isHexDigit, Char.le_def, UInt32.le_iff_toNat_le, or_assoc]

theorem isLowerHexDigit_iff {c : Char} :
    isLowerHexDigit c ↔ c.isDigit ∨ (97 ≤ c.toNat ∧ c.toNat ≤ 102) := by
  simp [isLowerHexDigit, Char.le_def, UInt32.le_iff_toNat_le]

theorem isNameChar_iff {c : Char} : isNameChar c ↔ c = '_' ∨ c.isAlpha ∨ c.isDigit := by
  simp [isNameChar, isAlphanum_iff]

theorem isBlank_iff {c : Char} :
    isBlank c ↔ c = ' ' ∨ c = '\t' ∨ c = '\n' ∨ c = '\x0c' ∨ c = '\r' := by
  simp [isBlank, or_assoc]

/-- No character of a name is white space. -/
theorem isBlank_of_isNameChar {c : Char} (hc : isNameChar c) : isBlank c = false := by
  refine Bool.eq_false_iff.mpr fun hblank => ?_
  rcases isBlank_iff.mp hblank with rfl | rfl | rfl | rfl | rfl <;> exact absurd hc (by decide)

theorem isNameChar_of_isHexDigit {c : Char} (hc : isHexDigit c) : isNameChar c := by
  rw [isNameChar_iff, isAlpha_iff]
  rcases isHexDigit_iff.mp hc with hdigit | hcode
  · exact .inr (.inr hdigit)
  · exact .inr (.inl (by omega))

theorem isAscii_iff {c : Char} : isAscii c ↔ c.toNat < 128 := by simp [isAscii]

end MoveText.Text
