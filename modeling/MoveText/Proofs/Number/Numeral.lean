import Mathlib.Data.List.Basic
import MoveText.Number.Decimal
import MoveText.Number.Numeral
import MoveText.Proofs.Text.Run

/-!
# Decimal digits as numerals

A non-empty row of decimal digits is a numeral without a sign, a marker or spacing, so it is read as
the number that its digits denote (`readInteger?_of_isDigit`). The decimal text of a number is such
a row, and denotes this number (`digitsValue_ofNat`).
-/

namespace MoveText.Text

/-! ### Reading digits -/

private theorem isSpacing_of_isDigit {c : Char} (hc : c.isDigit) : isSpacing c = false := by
  simp only [Char.isDigit_iff_toNat, Char.reduceToNat] at hc
  simp [isSpacing]
  omega

/-- A text without spacing in it has none at its ends. -/
private theorem trimSpacing_of_isSpacing_eq_false {s : Text} (hs : ∀ c ∈ s, isSpacing c = false) :
    trimSpacing s = s := by
  have hkept : ∀ {t : Text}, (∀ c ∈ t, isSpacing c = false) → t.dropWhile isSpacing = t := by
    intro t ht
    refine dropWhile_of_startsIn_eq_false ?_
    cases t with
    | nil => rfl
    | cons c t => exact ht c List.mem_cons_self
  rw [trimSpacing, hkept hs, hkept fun c hc => hs c (List.mem_reverse.mp hc), List.reverse_reverse]

/-- No marker has two digits. -/
private theorem readMarked?_of_isDigit {s : Text} (hs : ∀ c ∈ s, c.isDigit) :
    readMarked? s = none := by
  unfold readMarked?
  split
  case h_7 => rfl
  -- in every other case the second character is a letter
  all_goals
    next marker _ => exact absurd (hs _ (List.mem_cons_of_mem _ List.mem_cons_self)) (by decide)

private theorem splitSign_of_isDigit {s : Text} (hs : ∀ c ∈ s, c.isDigit) :
    splitSign s = (false, s) := by
  unfold splitSign
  split
  · exact absurd (hs _ List.mem_cons_self) (by decide)
  · exact absurd (hs _ List.mem_cons_self) (by decide)
  · rfl

private theorem readDigits?_of_isDigit {s : Text} (hne : s ≠ []) (hs : ∀ c ∈ s, c.isDigit) :
    readDigits? 10 Char.isDigit s = some (digitsValue 10 s) := by
  have hall : s.all Char.isDigit = true := List.all_eq_true.mpr hs
  simp [readDigits?, hne, hall]

/-- **A row of decimal digits is a numeral** for the number that the digits denote. -/
theorem readInteger?_of_isDigit {s : Text} (hne : s ≠ []) (hs : ∀ c ∈ s, c.isDigit) :
    readInteger? s = some (digitsValue 10 s : Int) := by
  rw [readInteger?, trimSpacing_of_isSpacing_eq_false fun c hc => isSpacing_of_isDigit (hs c hc)]
  split
  · exact absurd rfl hne
  · rw [readMarked?_of_isDigit hs]
    simp [readSigned?, splitSign_of_isDigit hs, readDigits?_of_isDigit hne hs]

/-! ### Writing digits -/

private theorem hexDigitValue_of_isDigit {c : Char} (hc : c.isDigit) :
    hexDigitValue c = c.toNat - '0'.toNat := if_pos hc

theorem isDigit_of_mem_ofNat {n : Nat} {c : Char} (hc : c ∈ ofNat n) : c.isDigit :=
  Nat.isDigit_of_mem_toDigits (b := 10) (n := n) (by decide) (by decide) hc

theorem ofNat_ne_nil (n : Nat) : ofNat n ≠ [] := Nat.toDigits_ne_nil

/-- Decimal digits denote the number that the library makes of them. -/
theorem digitsValue_of_isDigit {s : Text} (hs : ∀ c ∈ s, c.isDigit) :
    digitsValue 10 s = Nat.ofDigitChars 10 s 0 := by
  rw [digitsValue, Nat.ofDigitChars_eq_foldl]
  refine List.foldl_ext _ _ 0 fun value c hc => ?_
  rw [hexDigitValue_of_isDigit (hs c hc)]

/-- The digits of a number denote it. -/
theorem digitsValue_ofNat (n : Nat) : digitsValue 10 (ofNat n) = n := by
  rw [digitsValue_of_isDigit fun c => isDigit_of_mem_ofNat]
  exact Nat.ofDigitChars_toDigits (by decide) (by decide)

/-- A number that is not negative is written without a sign. -/
theorem ofInt_of_nonneg {n : Int} (hn : 0 ≤ n) : ofInt n = ofNat n.toNat := by
  have hnot : ¬ n < 0 := by omega
  rw [ofInt, if_neg hnot]
  congr 1
  omega

end MoveText.Text
