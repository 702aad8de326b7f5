import Mathlib.Algebra.Order.Ring.Nat
import MoveText.Binary.Layout
import MoveText.Proofs.Binary.Uleb

/-!
# What readers of bytes do

For each of the primitive readers a lemma `…_eq_ok_iff` says which bytes it takes, and
`ByteReader.bind_eq_ok_iff` puts them together. Bytes of which the lowest stands first and numbers
below a power of 256 correspond to each other (`littleEndian_ofLittleEndian`,
`ofLittleEndian_littleEndian`).
-/

namespace MoveText

/-! ### Numbers of fixed length -/

open ByteReader in
/-- The bytes of the number that bytes denote are these bytes. -/
theorem littleEndian_ofLittleEndian (bytes : Bytes) :
    littleEndian bytes.length (ofLittleEndian bytes) = bytes := by
  induction bytes with
  | nil => rfl
  | cons b bytes ih =>
    have hb := b.toNat_lt
    have hlow : (b.toNat + 256 * ofLittleEndian bytes) % 256 = b.toNat := by omega
    have hhigh : (b.toNat + 256 * ofLittleEndian bytes) / 256 = ofLittleEndian bytes := by omega
    rw [List.length_cons, littleEndian, ofLittleEndian, hlow, hhigh, UInt8.ofNat_toNat, ih]

theorem length_littleEndian (count n : Nat) : (littleEndian count n).length = count := by
  induction count generalizing n with
  | zero => rfl
  | succ count ih => rw [littleEndian, List.length_cons, ih]

/-- A number that fits is denoted by its bytes. -/
theorem ofLittleEndian_littleEndian {count n : Nat} (hn : n < 256 ^ count) :
    ByteReader.ofLittleEndian (littleEndian count n) = n := by
  induction count generalizing n with
  | zero =>
    obtain rfl := Nat.lt_one_iff.mp hn
    rfl
  | succ count ih =>
    have hhigh : n / 256 < 256 ^ count := Nat.div_lt_of_lt_mul (by rwa [Nat.pow_succ'] at hn)
    rw [littleEndian, ByteReader.ofLittleEndian, Text.toNat_ofNat_of_lt (Nat.mod_lt n (by decide)),
      ih hhigh, Nat.mod_add_div]

namespace ByteReader

theorem ofLittleEndian_lt (bytes : Bytes) : ofLittleEndian bytes < 256 ^ bytes.length := by
  induction bytes with
  | nil => exact Nat.one_pos
  | cons b bytes ih =>
    have hb := b.toNat_lt
    rw [ofLittleEndian, List.length_cons, Nat.pow_succ']
    omega

variable {α β : Type} {bytes rest : Bytes}

/-! ### When readers succeed -/

@[simp]
theorem pure_eq_ok_iff {a b : α} :
    (pure a : ByteReader α) bytes = .ok (b, rest) ↔ a = b ∧ bytes = rest := by
  change Except.ok (a, bytes) = .ok (b, rest) ↔ _
  simp

/-- A reader followed by another succeeds exactly if both do. -/
theorem bind_eq_ok_iff {r : ByteReader α} {f : α → ByteReader β} {b : β} :
    (r >>= f) bytes = .ok (b, rest) ↔
      ∃ a mid, r bytes = .ok (a, mid) ∧ f a mid = .ok (b, rest) := by
  dsimp only [bind]
  rcases r bytes with fault | ⟨a, mid⟩
  · simp
  · simp [and_assoc]

@[simp]
theorem fail_eq_ok_iff {fault : ReadFault} {a : α} :
    fail fault bytes = .ok (a, rest) ↔ False := by
  simp [fail]

@[simp]
theorem number_eq_ok_iff {n : Nat} :
    number bytes = .ok (n, rest) ↔
      ∃ groups, Uleb.Denotes groups n ∧ n ≤ greatestNumber ∧ bytes = groups ++ rest := by
  have hread := fun n rest => @Uleb.decode?_eq_some_iff n bytes rest
  rw [number]
  cases hdecode : Uleb.decode? bytes with
  | none =>
    refine iff_of_false (by simp) ?_
    rintro ⟨groups, hgroups, -, heq⟩
    have hsome := (hread n rest).mpr ⟨groups, hgroups, heq⟩
    rw [hdecode] at hsome
    cases hsome
  | some found =>
    obtain ⟨m, mid⟩ := found
    obtain ⟨groups, hgroups, heq⟩ := (hread m mid).mp hdecode
    simp only
    constructor
    · intro h
      split_ifs at h with hhuge
      cases h
      exact ⟨groups, hgroups, Nat.not_lt.mp hhuge, heq⟩
    · rintro ⟨groups', hgroups', hle, heq'⟩
      obtain ⟨rfl, rfl, rfl⟩ := hgroups.append_inj hgroups' (heq.symm.trans heq')
      rw [if_neg (Nat.not_lt.mpr hle)]

@[simp]
theorem exactly_eq_ok_iff {count : Nat} {taken : Bytes} :
    exactly count bytes = .ok (taken, rest) ↔ taken.length = count ∧ bytes = taken ++ rest := by
  induction count generalizing bytes taken with
  | zero =>
    rw [exactly, List.length_eq_zero_iff]
    constructor
    · rintro ⟨⟩
      exact ⟨rfl, rfl⟩
    · rintro ⟨rfl, rfl⟩
      rfl
  | succ count ih =>
    cases bytes with
    | nil =>
      refine iff_of_false (by simp [exactly]) ?_
      rintro ⟨hlength, heq⟩
      have htaken := (List.append_eq_nil_iff.mp heq.symm).1
      simp [htaken] at hlength
    | cons b bytes =>
      rw [exactly]
      constructor
      · intro h
        cases hexactly : exactly count bytes with
        | error fault => simp [hexactly, Except.map] at h
        | ok found =>
          rw [hexactly] at h
          cases h
          obtain ⟨hlength, heq⟩ := ih.mp hexactly
          exact ⟨congrArg (· + 1) hlength, congrArg (b :: ·) heq⟩
      · rintro ⟨hlength, heq⟩
        cases taken with
        | nil => cases hlength
        | cons c taken =>
          obtain ⟨rfl, hrest⟩ := List.cons.inj heq
          rw [ih.mpr ⟨Nat.succ.inj hlength, hrest⟩]
          rfl

@[simp]
theorem unsigned_eq_ok_iff {count n : Nat} :
    unsigned count bytes = .ok (n, rest) ↔
      ∃ taken, taken.length = count ∧ ofLittleEndian taken = n ∧ bytes = taken ++ rest := by
  simp only [unsigned, bind_eq_ok_iff, exactly_eq_ok_iff, pure_eq_ok_iff]
  constructor
  · rintro ⟨taken, mid, ⟨hlength, heq⟩, hvalue, rfl⟩
    exact ⟨taken, hlength, hvalue, heq⟩
  · rintro ⟨taken, hlength, hvalue, heq⟩
    exact ⟨taken, rest, ⟨hlength, heq⟩, hvalue, rfl⟩

/-- A string is its length, in bytes, and its body. -/
@[simp]
theorem string_eq_ok_iff {s : Text} :
    string bytes = .ok (s, rest) ↔
      ∃ count body, Uleb.Denotes count body.length ∧ body.length ≤ greatestNumber ∧
        Text.decodeText body = s ∧ bytes = count ++ (body ++ rest) := by
  simp only [string, bind_eq_ok_iff, number_eq_ok_iff, exactly_eq_ok_iff, pure_eq_ok_iff]
  constructor
  · rintro ⟨n, mid, ⟨count, hcount, hle, rfl⟩, body, mid', ⟨rfl, rfl⟩, hbody, rfl⟩
    exact ⟨count, body, hcount, hle, hbody, rfl⟩
  · rintro ⟨count, body, hcount, hle, hbody, rfl⟩
    exact ⟨_, _, ⟨count, hcount, hle, rfl⟩, body, _, ⟨rfl, rfl⟩, hbody, rfl⟩

/-- A list is its length and its items, whose number is looked at first. -/
theorem list_eq_ok_iff {item : ByteReader α} {items : List α} :
    list item bytes = .ok (items, rest) ↔
      ∃ count n mid, Uleb.Denotes count n ∧ n ≤ greatestCount ∧ bytes = count ++ mid ∧
        times item n mid = .ok (items, rest) := by
  have hsmall : greatestCount ≤ greatestNumber := by decide
  simp only [list, bind_eq_ok_iff, number_eq_ok_iff]
  constructor
  · rintro ⟨n, mid, ⟨count, hcount, -, rfl⟩, h⟩
    split_ifs at h with hgreat
    · exact (fail_eq_ok_iff.mp h).elim
    · exact ⟨count, n, mid, hcount, Nat.not_lt.mp hgreat, rfl, h⟩
  · rintro ⟨count, n, mid, hcount, hle, rfl, h⟩
    refine ⟨n, mid, ⟨count, hcount, Nat.le_trans hle hsmall, rfl⟩, ?_⟩
    rwa [if_neg (Nat.not_lt.mpr hle)]

end ByteReader

open ByteReader in
theorem Address.read_eq_ok_iff {s : Text} {input rest : Bytes} :
    Address.read input = .ok (s, rest) ↔
      ∃ body : Bytes, body.length = byteCount ∧ ofBytes body = s ∧ input = body ++ rest := by
  simp only [Address.read, bind_eq_ok_iff, exactly_eq_ok_iff, pure_eq_ok_iff]
  constructor
  · rintro ⟨body, mid, ⟨hlength, hinput⟩, hvalue, rfl⟩
    exact ⟨body, hlength, hvalue, hinput⟩
  · rintro ⟨body, hlength, hvalue, hinput⟩
    exact ⟨body, rest, ⟨hlength, hinput⟩, hvalue, rfl⟩

end MoveText
