import Mathlib.Algebra.Order.Ring.Nat
import Mathlib.Tactic.SplitIfs
import MoveText.Number.Binary64

/-!
# Integers as binary floating-point numbers

An integer of at most 53 bits is a binary floating-point number itself: rounding it changes nothing,
and it is read off again (`toInt?_ofInt`), whose sign and magnitude it has.
-/

namespace MoveText.Binary64

/-- Nothing is rounded where nothing is divided. -/
private theorem roundDiv_one (n : Nat) : roundDiv n 1 = n := by
  simp [roundDiv, Nat.mod_one]

private theorem scale_natCast (num den k : Nat) : scale num den k = (num * 2 ^ k, den) := by
  simp [scale]

theorem scale_neg_natCast (num den k : Nat) : scale num den (-k) = (num, den * 2 ^ k) := by
  cases k with
  | zero => simp [scale]
  | succ k =>
    have hneg : ¬ (0 : Int) ≤ -((k + 1 : Nat) : Int) := by omega
    rw [scale, if_neg hneg, Int.neg_neg, Int.toNat_natCast]
    rfl

private theorem toInt?_zero (negative : Bool) (exponent : Int) :
    (finite negative 0 exponent).toInt? = some 0 := by
  obtain ⟨k, rfl | rfl⟩ := Int.eq_nat_or_neg exponent
  · simp [toInt?, magnitude, scale_natCast, truncate]
  · simp [toInt?, magnitude, scale_neg_natCast, truncate]

private theorem floorLog2_one {n : Nat} (hn : n ≠ 0) : floorLog2 n 1 = Nat.log2 n := by
  have hlog : Nat.log2 1 = 0 := by decide
  have hle : 1 * 2 ^ Nat.log2 n ≤ n := by simpa using Nat.log2_self_le hn
  simp only [floorLog2, hlog, Int.natCast_zero, Int.sub_zero, scale_neg_natCast, if_pos hle]

/-- An integer of 53 bits, written with all of them. -/
theorem ofInt_eq {n : Int} (hn : n ≠ 0) (h : n.natAbs < 2 ^ 53) :
    ofInt n = finite (n < 0) (n.natAbs * 2 ^ (52 - Nat.log2 n.natAbs))
      (-(52 - Nat.log2 n.natAbs : Nat)) := by
  have hpos : n.natAbs ≠ 0 := Int.natAbs_ne_zero.mpr hn
  have hlog : Nat.log2 n.natAbs < 53 := (Nat.log2_lt hpos).mpr h
  have hexponent : max (floorLog2 n.natAbs 1 - 52) minExponent =
      -((52 - Nat.log2 n.natAbs : Nat) : Int) := by
    rw [floorLog2_one hpos, minExponent]
    omega
  -- all 53 bits are used, but no more, so the significand is not carried over
  have hlt : n.natAbs * 2 ^ (52 - Nat.log2 n.natAbs) ≠ Nat.pow 2 53 := by
    refine Nat.ne_of_lt (Nat.lt_of_lt_of_le ?_ (Nat.le_of_eq (?_ :
      2 ^ (Nat.log2 n.natAbs + 1) * 2 ^ (52 - Nat.log2 n.natAbs) = _)))
    · exact Nat.mul_lt_mul_of_pos_right Nat.lt_log2_self (Nat.two_pow_pos _)
    · rw [← Nat.pow_add]
      congr 1
      omega
  have hsmall : ¬ (971 : Int) < -((52 - Nat.log2 n.natAbs : Nat) : Int) := by omega
  simp only [ofInt, ofFraction, if_neg hpos, hexponent, Int.neg_neg, scale_natCast, roundDiv_one,
    if_neg hlt, if_neg hsmall]

/-- **An integer of 53 bits is kept.** -/
theorem toInt?_ofInt {n : Int} (h : n.natAbs < 2 ^ 53) : (ofInt n).toInt? = some n := by
  by_cases hn : n = 0
  · subst hn
    exact toInt?_zero false minExponent
  · have hpos := Nat.two_pow_pos (52 - Nat.log2 n.natAbs)
    have hdivides := Nat.mul_mod_left n.natAbs (2 ^ (52 - Nat.log2 n.natAbs))
    rw [ofInt_eq hn h]
    simp only [toInt?, magnitude, scale_neg_natCast, Nat.one_mul, if_pos hdivides, truncate,
      Nat.mul_div_cancel _ hpos, decide_eq_true_eq]
    split_ifs with hsign <;> (congr 1; omega)

theorem truncate_ofInt {n : Int} (h : n.natAbs < 2 ^ 53) : (ofInt n).truncate = n := by
  have hread := toInt?_ofInt h
  cases hx : ofInt n with
  | infinite negative =>
    rw [hx] at hread
    cases hread
  | finite negative significand exponent =>
    rw [hx, toInt?] at hread
    dsimp only at hread
    split_ifs at hread
    exact Option.some.inj hread

theorem isNegative_ofInt {n : Int} (h : n.natAbs < 2 ^ 53) :
    (ofInt n).isNegative = decide (n < 0) := by
  by_cases hn : n = 0
  · subst hn
    rfl
  · have hsignificand : n.natAbs * 2 ^ (52 - Nat.log2 n.natAbs) ≠ 0 :=
      Nat.mul_ne_zero (Int.natAbs_ne_zero.mpr hn) (Nat.two_pow_pos _).ne'
    rw [ofInt_eq hn h, isNegative, bne_iff_ne.mpr hsignificand, Bool.and_true]

private theorem exceeds_zero (negative : Bool) (exponent : Int) (bound : Nat) :
    (finite negative 0 exponent).exceeds bound = false := by
  obtain ⟨k, rfl | rfl⟩ := Int.eq_nat_or_neg exponent
  · simp [exceeds, magnitude, scale_natCast]
  · simp [exceeds, magnitude, scale_neg_natCast]

theorem exceeds_ofInt {n : Int} (h : n.natAbs < 2 ^ 53) (bound : Nat) :
    (ofInt n).exceeds bound = decide ((bound : Int) < n) := by
  by_cases hn : n = 0
  · subst hn
    have hbound : ¬ (bound : Int) < 0 := by omega
    rw [decide_eq_false hbound]
    exact exceeds_zero false minExponent bound
  · have hpos := Nat.two_pow_pos (52 - Nat.log2 n.natAbs)
    rw [ofInt_eq hn h]
    simp only [exceeds, magnitude, scale_neg_natCast, Nat.one_mul, Nat.mul_lt_mul_right hpos]
    by_cases hsign : n < 0
    · have hbound : ¬ (bound : Int) < n := by omega
      simp [hsign, hbound]
    · have hbound : bound < n.natAbs ↔ (bound : Int) < n := by omega
      simp [hsign, hbound]

end MoveText.Binary64
