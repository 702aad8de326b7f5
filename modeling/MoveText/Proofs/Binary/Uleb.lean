import Mathlib.Tactic.SplitIfs
import MoveText.Binary.Uleb
import MoveText.Proofs.Text.Utf8

/-!
# Variable-length numbers read back

Groups denote a number if reading takes all of them (`Uleb.Denotes`). Where a number starts, it is
settled where it ends (`Denotes.append_inj`), but a number has groups of many lengths. Those that
`Uleb.encode` writes are the shortest (`isShortest_iff`).
-/

namespace MoveText.Uleb

variable {groups groups' : Bytes} {n n' : Nat}

/-- The groups are those of one number, and nothing is left of them. -/
def Denotes (groups : Bytes) (n : Nat) : Prop := decode? groups = some (n, [])

private theorem not_denotes_nil : ¬ Denotes [] n := by simp [Denotes, decode?]

theorem Denotes.length_pos (h : Denotes groups n) : 0 < groups.length :=
  List.length_pos_iff.mpr fun hnil => not_denotes_nil (hnil ▸ h)

/-- What follows a number has a byte less at least. -/
theorem Denotes.length_le (h : Denotes groups n) {rest : Bytes} {size : Nat}
    (hsize : (groups ++ rest).length ≤ size + 1) : rest.length ≤ size := by
  have hpos := h.length_pos
  rw [List.length_append] at hsize
  omega

/-- A group without the highest bit is the last one. -/
theorem denotes_cons_iff {b : UInt8} {rest : Bytes} :
    Denotes (b :: rest) n ↔ (b.toNat < 128 ∧ rest = [] ∧ n = b.toNat) ∨
      (128 ≤ b.toNat ∧ ∃ high, Denotes rest high ∧ n = b.toNat - 128 + 128 * high) := by
  rw [Denotes, decode?]
  split_ifs with hlast
  · have hnot : ¬ 128 ≤ b.toNat := by omega
    simp [hlast, hnot, and_comm, eq_comm]
  · have hmore : 128 ≤ b.toNat := by omega
    simp [hlast, hmore, Denotes, @eq_comm _ n]

/-- Groups are read whatever follows them. -/
theorem decode?_append (h : Denotes groups n) (rest : Bytes) :
    decode? (groups ++ rest) = some (n, rest) := by
  induction groups generalizing n with
  | nil => exact absurd h not_denotes_nil
  | cons b groups ih =>
    rw [List.cons_append, decode?]
    rcases denotes_cons_iff.mp h with ⟨hlast, rfl, rfl⟩ | ⟨hmore, high, hhigh, rfl⟩
    · rw [if_pos hlast, List.nil_append]
    · rw [if_neg (Nat.not_lt.mpr hmore), ih hhigh]
      rfl

/-- **What is read of a number** are groups that denote it. -/
theorem decode?_eq_some_iff {bytes rest : Bytes} :
    decode? bytes = some (n, rest) ↔ ∃ groups, Denotes groups n ∧ bytes = groups ++ rest := by
  constructor
  · intro h
    induction bytes generalizing n with
    | nil => cases h
    | cons b bytes ih =>
      rw [decode?] at h
      split_ifs at h with hlast
      · cases h
        exact ⟨[b], denotes_cons_iff.mpr (.inl ⟨hlast, rfl, rfl⟩), rfl⟩
      · obtain ⟨⟨high, rest'⟩, hread, heq⟩ := Option.map_eq_some_iff.mp h
        cases heq
        obtain ⟨groups, hgroups, rfl⟩ := ih hread
        have hmore : 128 ≤ b.toNat := by omega
        exact ⟨b :: groups, denotes_cons_iff.mpr (.inr ⟨hmore, high, hgroups, rfl⟩), rfl⟩
  · rintro ⟨groups, hgroups, rfl⟩
    exact decode?_append hgroups rest

/-- Of two numbers that start at one place neither goes on where the other ends. -/
theorem Denotes.append_inj (h : Denotes groups n) (h' : Denotes groups' n') {rest rest' : Bytes}
    (heq : groups ++ rest = groups' ++ rest') : groups = groups' ∧ n = n' ∧ rest = rest' := by
  have hread := decode?_append h rest
  rw [heq, decode?_append h' rest'] at hread
  cases hread
  exact ⟨List.append_cancel_right heq, rfl, rfl⟩

/-! ### The shortest groups -/

theorem encode_of_lt (hn : n < 128) : encode n = [UInt8.ofNat n] := by
  rw [encode, if_pos hn]

private theorem encode_of_le (hn : 128 ≤ n) :
    encode n = UInt8.ofNat (n % 128 + 128) :: encode (n / 128) := by
  rw [encode, if_neg (Nat.not_lt.mpr hn)]

/-- The groups that are written denote the number. -/
theorem denotes_encode (n : Nat) : Denotes (encode n) n := by
  induction n using Nat.strongRecOn with
  | _ n ih =>
    by_cases hn : n < 128
    · rw [encode_of_lt hn]
      have hbyte : (UInt8.ofNat n).toNat = n := Text.toNat_ofNat_of_lt (by omega)
      exact denotes_cons_iff.mpr (.inl ⟨by omega, rfl, hbyte.symm⟩)
    · have hle := Nat.not_lt.mp hn
      have hbyte : (UInt8.ofNat (n % 128 + 128)).toNat = n % 128 + 128 :=
        Text.toNat_ofNat_of_lt (by omega)
      rw [encode_of_le hle]
      refine denotes_cons_iff.mpr (.inr ⟨by omega, n / 128, ih _ (by omega), ?_⟩)
      omega

/-- Other groups for a number are more than those that are written. -/
private theorem Denotes.eq_encode_or (h : Denotes groups n) :
    groups = encode n ∨ (encode n).length < groups.length := by
  induction groups generalizing n with
  | nil => exact absurd h not_denotes_nil
  | cons b groups ih =>
    rcases denotes_cons_iff.mp h with ⟨hlast, rfl, rfl⟩ | ⟨hmore, high, hhigh, hn⟩
    · left
      rw [encode_of_lt hlast, UInt8.ofNat_toNat]
    · have hb := b.toNat_lt
      by_cases hsmall : n < 128
      · -- the groups behind the first denote zero, and would not have been written
        right
        have hpos := hhigh.length_pos
        rw [encode_of_lt hsmall, List.length_cons, List.length_cons, List.length_nil]
        omega
      · have hdiv : n / 128 = high := by omega
        have hmod : n % 128 + 128 = b.toNat := by omega
        rw [encode_of_le (Nat.not_lt.mp hsmall), hdiv, hmod, UInt8.ofNat_toNat]
        rcases ih hhigh with rfl | hlonger
        · exact .inl rfl
        · exact .inr (by simpa using hlonger)

/-- No groups for the same number are fewer. -/
def IsShortest (groups : Bytes) : Prop :=
  ∀ groups' n, Denotes groups n → Denotes groups' n → groups.length ≤ groups'.length

/-- **The shortest groups of a number** are those that are written. -/
theorem isShortest_iff (h : Denotes groups n) : IsShortest groups ↔ groups = encode n := by
  constructor
  · intro hshortest
    have hle := hshortest _ n h (denotes_encode n)
    rcases h.eq_encode_or with heq | hlonger
    · exact heq
    · omega
  · rintro rfl groups' n' hn hgroups'
    obtain ⟨-, rfl, -⟩ := h.append_inj hn (rfl : encode n ++ [] = _)
    rcases hgroups'.eq_encode_or with rfl | hlonger
    · exact Nat.le_refl _
    · exact Nat.le_of_lt hlonger

end MoveText.Uleb
