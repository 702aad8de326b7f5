import MoveText.Proofs.Text.Ascii
import MoveText.Text.Hex

/-!
# Bytes and their digits

Writing bytes as digits and reading digits as bytes undo each other: every row of bytes is read
back from its digits (`bytesOfHex_hexOfBytes`), and small digits in pairs are those of the bytes
that they denote (`hexOfBytes_bytesOfHex`).
-/

namespace MoveText.Text

/-- A number that fits is kept in a byte; `omega` is to see the bound. -/
theorem toNat_ofNat_of_lt {n : Nat} (hn : n < 256) : (UInt8.ofNat n).toNat = n :=
  UInt8.toNat_ofNat_of_lt' hn

/-! ### Single digits -/

private theorem isLowerHexDigit_digitChar {n : Nat} (hn : n < 16) :
    isLowerHexDigit (Nat.digitChar n) := by
  revert n
  decide

theorem hexDigitValue_digitChar {n : Nat} (hn : n < 16) : hexDigitValue (Nat.digitChar n) = n := by
  revert n
  decide

theorem hexDigitValue_lt {c : Char} (hc : isHexDigit c) : hexDigitValue c < 16 :=
  of_isAscii (P := fun c => isHexDigit c → hexDigitValue c < 16) (by decide)
    (isAscii_of_isHexDigit hc) hc

theorem digitChar_hexDigitValue {c : Char} (hc : isLowerHexDigit c) :
    Nat.digitChar (hexDigitValue c) = c :=
  of_isAscii (P := fun c => isLowerHexDigit c → Nat.digitChar (hexDigitValue c) = c) (by decide)
    (isAscii_of_isHexDigit (isHexDigit_of_isLowerHexDigit hc)) hc

theorem hexDigitValue_toLower {c : Char} (hc : isHexDigit c) :
    hexDigitValue c.toLower = hexDigitValue c :=
  of_isAscii (P := fun c => isHexDigit c → hexDigitValue c.toLower = hexDigitValue c) (by decide)
    (isAscii_of_isHexDigit hc) hc

/-! ### Digits of bytes -/

theorem hexOfBytes_cons (b : UInt8) (bytes : Bytes) :
    hexOfBytes (b :: bytes) =
      Nat.digitChar (b.toNat / 16) :: Nat.digitChar (b.toNat % 16) :: hexOfBytes bytes := rfl

theorem length_hexOfBytes (bytes : Bytes) : (hexOfBytes bytes).length = 2 * bytes.length := by
  induction bytes with
  | nil => rfl
  | cons b bytes ih =>
    rw [hexOfBytes_cons, List.length_cons, List.length_cons, List.length_cons, ih]
    omega

theorem isLowerHexDigit_of_mem_hexOfBytes {bytes : Bytes} {c : Char} (hc : c ∈ hexOfBytes bytes) :
    isLowerHexDigit c := by
  obtain ⟨b, -, hb⟩ := List.mem_flatMap.mp hc
  have hlt := b.toNat_lt
  simp only [hexOfByte, List.mem_cons, List.not_mem_nil, or_false] at hb
  rcases hb with rfl | rfl <;> exact isLowerHexDigit_digitChar (by omega)

/-- **Bytes are read back from their digits.** -/
theorem bytesOfHex_hexOfBytes (bytes : Bytes) : bytesOfHex (hexOfBytes bytes) = bytes := by
  induction bytes with
  | nil => rfl
  | cons b bytes ih =>
    have hlt := b.toNat_lt
    have hbyte : 16 * (b.toNat / 16) + b.toNat % 16 = b.toNat := Nat.div_add_mod b.toNat 16
    rw [hexOfBytes_cons, bytesOfHex, hexDigitValue_digitChar (by omega),
      hexDigitValue_digitChar (by omega), hbyte, UInt8.ofNat_toNat, ih]

/-! ### Bytes of digits -/

theorem length_bytesOfHex (digits : Text) : (bytesOfHex digits).length = digits.length / 2 := by
  fun_induction bytesOfHex digits with
  | case1 high low rest ih =>
    simp only [List.length_cons, ih]
    omega
  | case2 s hs =>
    cases s with
    | nil => rfl
    | cons c s =>
      cases s with
      | nil => simp
      | cons d s => exact absurd rfl (hs c d s)

/-- **Small digits in pairs are those of the bytes that they denote.** -/
theorem hexOfBytes_bytesOfHex {digits : Text} (hdigits : ∀ c ∈ digits, isLowerHexDigit c)
    (heven : digits.length % 2 = 0) : hexOfBytes (bytesOfHex digits) = digits := by
  fun_induction bytesOfHex digits with
  | case1 high low rest ih =>
    simp only [List.forall_mem_cons] at hdigits
    obtain ⟨hhigh, hlow, hrest⟩ := hdigits
    have hhighLt := hexDigitValue_lt (isHexDigit_of_isLowerHexDigit hhigh)
    have hlowLt := hexDigitValue_lt (isHexDigit_of_isLowerHexDigit hlow)
    have hbyte : (UInt8.ofNat (16 * hexDigitValue high + hexDigitValue low)).toNat =
        16 * hexDigitValue high + hexDigitValue low :=
      toNat_ofNat_of_lt (by omega)
    have hdiv : (16 * hexDigitValue high + hexDigitValue low) / 16 = hexDigitValue high := by omega
    have hmod : (16 * hexDigitValue high + hexDigitValue low) % 16 = hexDigitValue low := by omega
    simp only [List.length_cons] at heven
    rw [hexOfBytes_cons, hbyte, hdiv, hmod, digitChar_hexDigitValue hhigh,
      digitChar_hexDigitValue hlow, ih hrest (by omega)]
  | case2 s hs =>
    cases s with
    | nil => rfl
    | cons c s =>
      cases s with
      | nil => cases heven
      | cons d s => exact absurd rfl (hs c d s)

/-- Capital digits denote what small ones do. -/
private theorem bytesOfHex_map_toLower {digits : Text} (hdigits : ∀ c ∈ digits, isHexDigit c) :
    bytesOfHex (digits.map Char.toLower) = bytesOfHex digits := by
  fun_induction bytesOfHex digits with
  | case1 high low rest ih =>
    simp only [List.forall_mem_cons] at hdigits
    obtain ⟨hhigh, hlow, hrest⟩ := hdigits
    rw [List.map_cons, List.map_cons, bytesOfHex, hexDigitValue_toLower hhigh,
      hexDigitValue_toLower hlow, ih hrest]
  | case2 s hs =>
    cases s with
    | nil => rfl
    | cons c s =>
      cases s with
      | nil => rfl
      | cons d s => exact absurd rfl (hs c d s)

/-- **Digits of either case in pairs** denote the bytes whose digits they are in small letters. -/
theorem bytesOfHex_eq_iff {digits : Text} (hdigits : ∀ c ∈ digits, isHexDigit c)
    (heven : digits.length % 2 = 0) {bytes : Bytes} :
    bytesOfHex digits = bytes ↔ hexOfBytes bytes = digits.map Char.toLower := by
  rw [← bytesOfHex_map_toLower hdigits]
  constructor
  · rintro rfl
    refine hexOfBytes_bytesOfHex (fun c hc => ?_) (by rwa [List.length_map])
    obtain ⟨d, hd, rfl⟩ := List.mem_map.mp hc
    exact isLowerHexDigit_toLower (hdigits d hd)
  · intro h
    rw [← h, bytesOfHex_hexOfBytes]

end MoveText.Text
