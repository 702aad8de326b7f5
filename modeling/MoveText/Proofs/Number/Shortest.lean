import Mathlib.Tactic.Ring
import MoveText.Number.Shortest
import MoveText.Proofs.Number.Binary64

/-!
# Bytes as decimal text

An integer has as many digits before the point as it is written with (`pointPosition_eq`), so the
search for the shortest digits starts where it should. For a byte it ends at the digits of the byte.
-/

namespace MoveText

namespace Text

/-- Multiplying by a power of ten adds zeros. -/
private theorem ofNat_mul_pow {n : Nat} (hn : n ≠ 0) (count : Nat) :
    ofNat (n * 10 ^ count) = ofNat n ++ List.replicate count '0' := by
  induction count with
  | zero => simp
  | succ count ih =>
    have hpos : 0 < n * 10 ^ count := Nat.mul_pos (Nat.pos_of_ne_zero hn) (Nat.pow_pos (by decide))
    have hdigit := Nat.toDigits_append_toDigits (b := 10) (d := 0) (by decide) hpos (by decide)
    have hnext : n * 10 ^ (count + 1) = 10 * (n * 10 ^ count) + 0 := by ring
    rw [hnext, ofNat, ← hdigit, List.replicate_succ', ← List.append_assoc, ← ih]
    rfl

end Text

namespace Binary64

/-- Before the point of an integer stand the digits that it is written with. -/
theorem Rounding.pointPosition_eq {r : Rounding} {n : Nat} (hn : n ≠ 0) (hden : 0 < r.den)
    (hvalue : r.value = n * r.den) : r.pointPosition = (Text.ofNat n).length := by
  have hscaled : ∀ places, r.value * Nat.pow 10 places / r.den = n * 10 ^ places := by
    intro places
    rw [hvalue, Nat.mul_right_comm]
    exact Nat.mul_div_cancel _ hden
  rw [pointPosition, hscaled, Text.ofNat_mul_pow hn, List.length_append, List.length_replicate,
    Int.natCast_add, Int.add_sub_cancel]

/-- The search that starts behind the digits of a byte ends at them. -/
private theorem layout_digitsFrom {n : Nat} (hn : n < 256) (hzero : n ≠ 0) {found : Nat × Int}
    (hfound : (rounding (n * 2 ^ (52 - Nat.log2 n)) (-(52 - Nat.log2 n : Nat))).digitsFrom
      (Text.ofNat n).length 1 17 = found) :
    layout (placed found.1 found.2).1 (placed found.1 found.2).2 = Text.ofNat n := by
  subst hfound
  revert n
  decide +kernel

/-- **A byte is written as the number that it is.** -/
theorem toText_ofInt {n : Nat} (hn : n < 256) : (ofInt n).toText = Text.ofNat n := by
  by_cases hzero : n = 0
  · subst hzero
    have hinteger : ofInt (0 : Nat) = finite false 0 minExponent := rfl
    rw [hinteger, toText, if_pos rfl]
    rfl
  · have hpos := Nat.two_pow_pos (52 - Nat.log2 n)
    have hsignificand : n * 2 ^ (52 - Nat.log2 n) ≠ 0 := Nat.mul_ne_zero hzero hpos.ne'
    have hunit : scale 1 1 (-((52 - Nat.log2 n : Nat) : Int) - 2) =
        (1, 2 ^ (52 - Nat.log2 n + 2)) := by
      have hexponent : -((52 - Nat.log2 n : Nat) : Int) - 2 =
          -((52 - Nat.log2 n + 2 : Nat) : Int) := by omega
      rw [hexponent, scale_neg_natCast, Nat.one_mul]
    -- the digits in front of the point are counted by the lemma, the others are searched
    have hpoint : (rounding (n * 2 ^ (52 - Nat.log2 n))
        (-(52 - Nat.log2 n : Nat))).pointPosition = (Text.ofNat n).length := by
      refine Rounding.pointPosition_eq hzero ?_ ?_
      · simp only [rounding, hunit]
        exact Nat.two_pow_pos _
      · simp only [rounding, hunit]
        ring
    have hpositive : ¬ (n : Int) < 0 := by omega
    have hinteger := ofInt_eq (n := n) (by exact_mod_cast hzero) (by simp; omega)
    rw [Int.natAbs_natCast, decide_eq_false hpositive] at hinteger
    rw [hinteger, toText, if_neg hsignificand, Rounding.shortest, hpoint]
    exact layout_digitsFrom hn hzero rfl

end Binary64

end MoveText
