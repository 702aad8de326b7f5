import MoveText.Proofs.Address.NormalForms
import MoveText.Proofs.TypeTag.Input

/-!
# Which texts have the bytes of an address

A text is checked in its normal form before it is given bytes. It passes exactly if it consists of
up to 64 hexadecimal digits, behind one marker or none (`serialize_text_eq_ok_iff`), and then it has
the bytes of the number of these digits. Nothing else is lowercased to such digits. A marker without
any digit passes too, and so does the empty text, as zeros are filled in before the check. These
are the only texts that need no digit (`serialize_asks_digit_iff`), and otherwise the marked texts
that have bytes are the literals that are accepted (`serialize_reads_digits`).
-/

namespace MoveText

namespace Address

variable {s address digits : Text} {bytes : Bytes}

/-- The text consists of the given hexadecimal digits, with a marker in front or without one. -/
def Spells (s digits : Text) : Prop :=
  (s = digits ∨ ∃ marker, (marker = 'x' ∨ marker = 'X') ∧ s = '0' :: marker :: digits) ∧
    ∀ c ∈ digits, Text.isHexDigit c

private theorem spells_marked_iff {marker : Char} (hmarker : marker = 'x' ∨ marker = 'X')
    {rest : Text} :
    Spells ('0' :: marker :: rest) digits ↔ rest = digits ∧ ∀ c ∈ digits, Text.isHexDigit c := by
  refine and_congr_left fun hdigits => ⟨?_, fun h => .inr ⟨marker, hmarker, by rw [h]⟩⟩
  rintro (rfl | ⟨_, -, hs⟩)
  · -- a marker is no digit
    have hdigit := hdigits marker (by simp)
    rcases hmarker with rfl | rfl <;> exact absurd hdigit (by decide)
  · exact (List.cons.inj (List.cons.inj hs).2).2

theorem Spells.unique {digits' : Text} (h : Spells s digits) (h' : Spells s digits') :
    digits = digits' := by
  obtain ⟨rfl | ⟨marker, hmarker, rfl⟩, hdigits⟩ := h
  · obtain ⟨rfl | ⟨marker, hmarker, rfl⟩, -⟩ := h'
    · rfl
    · exact ((spells_marked_iff hmarker).mp ⟨.inl rfl, hdigits⟩).1.symm
  · exact ((spells_marked_iff hmarker).mp h').1

/-! ### Texts that pass the check -/

/-- The normal form of digits is made without their marker. -/
private theorem Spells.normalize_eq (h : Spells s digits) : normalize s = padded digits := by
  obtain ⟨rfl | ⟨marker, hmarker, rfl⟩, hdigits⟩ := h
  · exact normalize_of_isHexDigit hdigits
  · rw [normalize_marked hmarker hdigits, normalize_of_isHexDigit hdigits]

/-- What is lowercased to small digits, but for a marker in front, are digits. -/
private theorem exists_spells {t : Text} (ht : Text.lowercase s = t)
    (h : ∀ c ∈ dropMarker t, Text.isLowerHexDigit c) : ∃ digits, Spells s digits := by
  have hparts : ∀ c ∈ t, Text.isLowerHexDigit c ∨ c = 'x' := by
    unfold dropMarker at h
    split at h
    · simpa [Text.isLowerHexDigit] using fun c hc => Or.inl (h c hc)
    · exact fun c hc => .inl (h c hc)
  have hascii : ∀ c ∈ s, Text.isAscii c :=
    Text.isAscii_of_lowercase fun d hd => Text.isAscii_of_isLowerHexDigit_or (hparts d (ht ▸ hd))
  have hdigits : ∀ {digits : Text}, (∀ c ∈ digits, Text.isAscii c) →
      (∀ c ∈ digits.map Char.toLower, Text.isLowerHexDigit c) →
      ∀ c ∈ digits, Text.isHexDigit c := fun hascii hlower c hc =>
    Text.isHexDigit_of_isLowerHexDigit_toLower (hascii c hc) (hlower _ (List.mem_map_of_mem hc))
  rw [Text.lowercase_of_isAscii hascii] at ht
  unfold dropMarker at h
  split at h
  · obtain ⟨zero, _, rfl, hzero, hrest⟩ := List.map_eq_cons_iff.mp ht
    obtain ⟨marker, digits, rfl, hmarker, rfl⟩ := List.map_eq_cons_iff.mp hrest
    simp only [List.forall_mem_cons] at hascii
    obtain ⟨hzeroAscii, hmarkerAscii, hascii⟩ := hascii
    obtain rfl := Text.eq_zero_of_toLower hzeroAscii hzero
    exact ⟨digits, .inr ⟨marker, Text.eq_marker_of_toLower hmarkerAscii hmarker, rfl⟩,
      hdigits hascii h⟩
  · subst ht
    exact ⟨s, .inl rfl, hdigits hascii h⟩

/-- **The texts that have the normal form of an address**: up to 64 digits, with a marker or
without. -/
theorem isNormal_normalize_iff_spells :
    isNormal (normalize s) ↔ ∃ digits, Spells s digits ∧ digits.length ≤ digitCount := by
  constructor
  · intro h
    obtain ⟨hdigits, hlength⟩ := isNormal_normalize_iff.mp h
    obtain ⟨digits, hspells⟩ := exists_spells rfl fun c hc =>
      hdigits c (List.mem_append_right _ hc)
    refine ⟨digits, hspells, ?_⟩
    -- the digits are a part of those at full width
    have hnormal := hspells.normalize_eq
    rw [normalize, padded] at hnormal
    rw [(List.cons.inj (List.cons.inj hnormal).2).2, List.length_append, List.length_map] at hlength
    omega
  · rintro ⟨digits, hspells, hlength⟩
    rw [hspells.normalize_eq]
    exact isNormal_padded hspells.2 hlength

/-! ### The bytes of a text -/

theorem serialize_eq_ok_iff :
    serialize (.text s) = .ok bytes ↔ isNormal (normalize s) ∧ bytes = toBytes s := by
  rw [serialize, Except.map_eq_ok_iff]
  simp only [ofValue_text_eq_ok_iff]
  constructor
  · rintro ⟨_, ⟨hnormal, rfl⟩, rfl⟩
    exact ⟨hnormal, rfl⟩
  · rintro ⟨hnormal, rfl⟩
    exact ⟨s, ⟨hnormal, rfl⟩, rfl⟩

/-- Digits have the bytes of their number. -/
private theorem Spells.toBytes_eq (h : Spells s digits) (hlength : digits.length ≤ digitCount) :
    toBytes s = (littleEndian byteCount (Text.digitsValue 16 digits)).reverse := by
  obtain ⟨filled, hfilled, hlower, hfull⟩ := isNormal_iff.mp (isNormal_padded h.2 hlength)
  have hdouble : filled.length = 2 * byteCount := hfull
  have hbytes := Text.bytesOfHex_eq
    (fun c hc => Text.isHexDigit_of_isLowerHexDigit (hlower c hc)) hdouble
  rw [← toBytes_normalize, h.normalize_eq, hfilled, toBytes, normalDigits_of_full hlower hfull,
    hbytes]
  obtain ⟨-, rfl⟩ := List.cons.inj (List.cons.inj hfilled).2
  rw [Text.digitsValue_replicate_append, Text.digitsValue_map_toLower h.2]

/-- **The texts that have bytes, and the bytes.** -/
theorem serialize_text_eq_ok_iff :
    serialize (.text s) = .ok bytes ↔ ∃ digits, Spells s digits ∧ digits.length ≤ digitCount ∧
      bytes = (littleEndian byteCount (Text.digitsValue 16 digits)).reverse := by
  rw [serialize_eq_ok_iff, isNormal_normalize_iff_spells]
  constructor
  · rintro ⟨⟨digits, hspells, hlength⟩, rfl⟩
    exact ⟨digits, hspells, hlength, hspells.toBytes_eq hlength⟩
  · rintro ⟨digits, hspells, hlength, rfl⟩
    exact ⟨⟨digits, hspells, hlength⟩, (hspells.toBytes_eq hlength).symm⟩

/-- **A digit is asked for** on all texts but the empty one and a marker alone. -/
theorem serialize_asks_digit_iff :
    (∀ bytes, serialize (.text s) = .ok bytes ↔
      ∃ digits, Spells s digits ∧ digits ≠ [] ∧ digits.length ≤ digitCount ∧
        bytes = (littleEndian byteCount (Text.digitsValue 16 digits)).reverse) ↔
      ¬ Spells s [] := by
  constructor
  · intro h hbare
    obtain ⟨digits, hspells, hne, -⟩ :=
      (h _).mp (serialize_text_eq_ok_iff.mpr ⟨[], hbare, Nat.zero_le _, rfl⟩)
    exact hne (hspells.unique hbare)
  · intro hbare bytes
    rw [serialize_text_eq_ok_iff]
    constructor
    · rintro ⟨digits, hspells, hlength, rfl⟩
      exact ⟨digits, hspells, fun hnil => hbare (hnil ▸ hspells), hlength, rfl⟩
    · rintro ⟨digits, hspells, -, hlength, rfl⟩
      exact ⟨digits, hspells, hlength, rfl⟩

/-- Behind a marker, what has bytes and is no literal are no digits at all. -/
private theorem exists_serialize_marked_iff {marker : Char} (hmarker : marker = 'x' ∨ marker = 'X')
    {rest : Text} :
    (∃ bytes, serialize (.text ('0' :: marker :: rest)) = .ok bytes) ↔
      rest = [] ∨ ∃ address, ofLiteral ('0' :: marker :: rest) = .ok address := by
  simp only [serialize_text_eq_ok_iff, ofLiteral_eq_ok_iff, spells_marked_iff hmarker]
  constructor
  · rintro ⟨_, digits, ⟨rfl, hdigits⟩, hlength, -⟩
    refine or_iff_not_imp_left.mpr fun hne => ?_
    exact ⟨_, marker, rest, hmarker, hne, hdigits, hlength, rfl, rfl⟩
  · rintro (rfl | ⟨_, _, digits, -, -, hdigits, hlength, hs, -⟩)
    · exact ⟨_, [], ⟨rfl, by simp⟩, Nat.zero_le _, rfl⟩
    · exact ⟨_, digits, ⟨(List.cons.inj (List.cons.inj hs).2).2, hdigits⟩, hlength, rfl⟩

/-- **A literal is read back from its bytes** as what it denotes, whatever follows these. -/
theorem read_serialize (h : ofLiteral s = .ok address) :
    ∃ bytes, serialize (.text s) = .ok bytes ∧
      ∀ rest, Address.read (bytes ++ rest) = .ok (address, rest) := by
  obtain ⟨rfl, hnormal⟩ := of_ofLiteral h
  refine ⟨toBytes s, serialize_eq_ok_iff.mpr ⟨hnormal, rfl⟩, fun rest => ?_⟩
  exact read_eq_ok_iff.mpr ⟨toBytes s, length_toBytes hnormal, ofBytes_toBytes hnormal, rfl⟩

/-! ### Bytes as they are -/

/-- **Bytes are written unchanged** if there are 32 of them, and else not at all. -/
theorem serialize_bytes_eq_ok_iff {out : Bytes} :
    serialize (.bytes bytes) = .ok out ↔ bytes.length = byteCount ∧ out = bytes := by
  rw [serialize, Except.map_eq_ok_iff, ofValue, ofShownBytes]
  constructor
  · rintro ⟨_, h, rfl⟩
    split_ifs at h with hnormal hlength
    obtain rfl := Except.ok.inj h
    have hfull := not_not.mp hlength
    refine ⟨hfull, ?_⟩
    rw [← toBytes_normalize, ← ofBytes, toBytes_ofBytes hfull]
  · rintro ⟨hlength, rfl⟩
    have hnormal : isNormal (normalize (Text.hexOfBytes out)) := isNormal_ofBytes hlength
    refine ⟨Text.hexOfBytes out, ?_, ?_⟩
    · rw [hnormal, Bool.not_true, if_neg Bool.false_ne_true, if_neg (not_not.mpr hlength)]
    · rw [← toBytes_normalize, ← ofBytes, toBytes_ofBytes hlength]

/-! ### The layout as a whole -/

/-- **What the binary layout of addresses takes**: digits, of which there may be none, with a marker
or without, for the bytes of their number. It asks for a digit on all texts but the empty one and a
marker alone. A marked text with anything behind the marker is taken exactly if it is a literal that
is accepted, and is then read back as what this denotes. Bytes are taken as they are. -/
theorem serialize_reads_digits (s : Text) (given : Bytes) :
    (∀ bytes, serialize (.text s) = .ok bytes ↔
      ∃ digits, Spells s digits ∧ digits.length ≤ digitCount ∧
        bytes = (littleEndian byteCount (Text.digitsValue 16 digits)).reverse) ∧
    ((∀ bytes, serialize (.text s) = .ok bytes ↔
      ∃ digits, Spells s digits ∧ digits ≠ [] ∧ digits.length ≤ digitCount ∧
        bytes = (littleEndian byteCount (Text.digitsValue 16 digits)).reverse) ↔
      ¬ Spells s []) ∧
    (∀ marker rest, marker = 'x' ∨ marker = 'X' → s = '0' :: marker :: rest →
      ((∃ bytes, serialize (.text s) = .ok bytes) ↔
        rest = [] ∨ ∃ address, ofLiteral s = .ok address)) ∧
    (∀ address, ofLiteral s = .ok address → ∃ bytes, serialize (.text s) = .ok bytes ∧
      ∀ rest, Address.read (bytes ++ rest) = .ok (address, rest)) ∧
    ∀ out, serialize (.bytes given) = .ok out ↔ given.length = byteCount ∧ out = given := by
  refine ⟨fun _ => serialize_text_eq_ok_iff, serialize_asks_digit_iff, ?_,
    fun _ h => read_serialize h, fun _ => serialize_bytes_eq_ok_iff⟩
  rintro marker rest hmarker rfl
  exact exists_serialize_marked_iff hmarker

/-- Ten is taken behind a marker, and read back. -/
theorem serialize_reads_digits_ten :
    serialize (.text "0X0a".toList) = .ok (littleEndian byteCount 10).reverse ∧
    ¬ Spells "0X0a".toList [] ∧
    ∃ bytes, serialize (.text "0X0a".toList) = .ok bytes ∧
      ∀ rest, Address.read (bytes ++ rest) = .ok (normalize "A".toList, rest) := by
  obtain ⟨-, hdigit, -, hliteral, -⟩ := serialize_reads_digits "0X0a".toList []
  have hspells : Spells "0X0a".toList "0a".toList :=
    ⟨.inr ⟨'X', .inr rfl, rfl⟩, List.all_eq_true.mp rfl⟩
  have hbare : ¬ Spells "0X0a".toList [] := fun h => by simpa using hspells.unique h
  exact ⟨(hdigit.mpr hbare _).mpr ⟨_, hspells, by decide, by decide, rfl⟩, hbare,
    hliteral _ (by decide +kernel)⟩

/-- **A marker alone has bytes and is no literal**: it is taken for the address zero. -/
theorem serialize_bare_marker :
    serialize (.text "0x".toList) = .ok (List.replicate byteCount 0) ∧
      ∀ address, ofLiteral "0x".toList ≠ .ok address := by
  constructor
  · exact serialize_text_eq_ok_iff.mpr ⟨[], ⟨.inr ⟨'x', .inl rfl, rfl⟩, by simp⟩, by decide, rfl⟩
  · intro address
    have hnone : literalDigits? "0x".toList = none := by decide
    rw [ofLiteral, hnone]
    simp

end Address

end MoveText
