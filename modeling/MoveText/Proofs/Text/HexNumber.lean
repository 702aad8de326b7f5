import Mathlib.Data.Nat.Digits.Lemmas
import MoveText.Proofs.Binary.Reader

/-!
# The number that hexadecimal digits denote

Zeros in front and the case of the digits make no difference to the number, and as many digits are
told by it (`eq_of_digitsValue_eq`). The bytes that pairs of digits denote are those of the number,
the highest first (`bytesOfHex_eq`).
-/

namespace MoveText

private theorem ByteReader.ofLittleEndian_append (bytes bytes' : Bytes) :
    ofLittleEndian (bytes ++ bytes') =
      ofLittleEndian bytes + 256 ^ bytes.length * ofLittleEndian bytes' := by
  induction bytes with
  | nil => simp [ofLittleEndian]
  | cons b bytes ih =>
    rw [List.cons_append, ofLittleEndian, ofLittleEndian, ih, List.length_cons, Nat.pow_succ',
      Nat.mul_add, Nat.add_assoc, Nat.mul_assoc]

namespace Text

/-- The number is that of the values of the digits, which are given with the lowest first there. -/
private theorem digitsValue_eq_ofDigits (base : Nat) (s : Text) :
    digitsValue base s = Nat.ofDigits base (s.map hexDigitValue).reverse := by
  rw [Nat.ofDigits_eq_foldr, List.foldr_reverse, List.foldl_map, digitsValue]
  refine List.foldl_ext _ _ 0 fun value c _ => ?_
  rw [Nat.cast_id, Nat.add_comm]

theorem digitsValue_replicate_append (count : Nat) (s : Text) :
    digitsValue 16 (List.replicate count '0' ++ s) = digitsValue 16 s := by
  have hzero : hexDigitValue '0' = 0 := by decide
  rw [digitsValue_eq_ofDigits, digitsValue_eq_ofDigits, List.map_append, List.map_replicate, hzero,
    List.reverse_append, List.reverse_replicate, Nat.ofDigits_append_replicate_zero]

theorem digitsValue_map_toLower {s : Text} (hs : ∀ c ∈ s, isHexDigit c) :
    digitsValue 16 (s.map Char.toLower) = digitsValue 16 s := by
  have hsame : (s.map Char.toLower).map hexDigitValue = s.map hexDigitValue := by
    rw [List.map_map]
    exact List.map_congr_left fun c hc => hexDigitValue_toLower (hs c hc)
  rw [digitsValue_eq_ofDigits, digitsValue_eq_ofDigits, hsame]

/-- **Of rows of small digits of one length, each is told by its number.** -/
theorem eq_of_digitsValue_eq {s t : Text} (hs : ∀ c ∈ s, isLowerHexDigit c)
    (ht : ∀ c ∈ t, isLowerHexDigit c) (hlength : s.length = t.length)
    (h : digitsValue 16 s = digitsValue 16 t) : s = t := by
  have hlt : ∀ {w : Text}, (∀ c ∈ w, isLowerHexDigit c) →
      ∀ d ∈ (w.map hexDigitValue).reverse, d < 16 := by
    intro w hw d hd
    obtain ⟨c, hc, rfl⟩ := List.mem_map.mp (List.mem_reverse.mp hd)
    exact hexDigitValue_lt (isHexDigit_of_isLowerHexDigit (hw c hc))
  have hback : ∀ {w : Text}, (∀ c ∈ w, isLowerHexDigit c) →
      (w.map hexDigitValue).map Nat.digitChar = w := by
    intro w hw
    rw [List.map_map]
    exact (List.map_congr_left fun c hc => digitChar_hexDigitValue (hw c hc)).trans (List.map_id w)
  rw [digitsValue_eq_ofDigits, digitsValue_eq_ofDigits] at h
  have hvalues := Nat.ofDigits_inj_of_len_eq (by decide) (by simpa using hlength) (hlt hs)
    (hlt ht) h
  -- a small digit is told by its value, so the rows are told by their values
  rw [← hback hs, ← hback ht, List.reverse_injective hvalues]

/-! ### The bytes of the number -/

private theorem ofLittleEndian_reverse_bytesOfHex {digits : Text}
    (hdigits : ∀ c ∈ digits, isHexDigit c) (heven : digits.length % 2 = 0) :
    ByteReader.ofLittleEndian (bytesOfHex digits).reverse = digitsValue 16 digits := by
  fun_induction bytesOfHex digits with
  | case1 high low rest ih =>
    simp only [List.forall_mem_cons, List.length_cons] at hdigits heven
    obtain ⟨hhigh, hlow, hrest⟩ := hdigits
    have hhighLt := hexDigitValue_lt hhigh
    have hlowLt := hexDigitValue_lt hlow
    have hbyte : (UInt8.ofNat (16 * hexDigitValue high + hexDigitValue low)).toNat =
        16 * hexDigitValue high + hexDigitValue low :=
      toNat_ofNat_of_lt (by omega)
    have hpow : 256 ^ (rest.length / 2) = 16 ^ rest.length := by
      have hlength : rest.length = 2 * (rest.length / 2) := by omega
      conv_rhs => rw [hlength, Nat.pow_mul]
    -- the first byte is the highest, so it stands last in the reversed bytes
    rw [List.reverse_cons, ByteReader.ofLittleEndian_append, ih hrest (by omega),
      List.length_reverse, length_bytesOfHex, hpow, ByteReader.ofLittleEndian,
      ByteReader.ofLittleEndian, hbyte, digitsValue_eq_ofDigits, digitsValue_eq_ofDigits,
      List.map_cons, List.map_cons, List.reverse_cons, List.reverse_cons, List.append_assoc,
      Nat.ofDigits_append, List.length_reverse, List.length_map]
    simp [Nat.ofDigits_cons, Nat.add_comm]
  | case2 s hs =>
    cases s with
    | nil => rfl
    | cons c s =>
      cases s with
      | nil => cases heven
      | cons d s => exact absurd rfl (hs c d s)

/-- **Pairs of digits denote the bytes of their number**, the highest first. -/
theorem bytesOfHex_eq {digits : Text} (hdigits : ∀ c ∈ digits, isHexDigit c) {count : Nat}
    (hlength : digits.length = 2 * count) :
    bytesOfHex digits = (littleEndian count (digitsValue 16 digits)).reverse := by
  have hcount : (bytesOfHex digits).length = count := by
    rw [length_bytesOfHex]
    omega
  have hbytes := littleEndian_ofLittleEndian (bytesOfHex digits).reverse
  rw [ofLittleEndian_reverse_bytesOfHex hdigits (by omega), List.length_reverse, hcount] at hbytes
  rw [hbytes, List.reverse_reverse]

end Text

end MoveText
