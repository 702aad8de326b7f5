import MoveText.Address
import MoveText.Proofs.Text.Ascii

/-!
# Address literals and normal forms

`Address.padded` is the normal form of an address with the given digits: small letters, and zeros in
front up to the full width. It needs neither the lowercasing of arbitrary text nor the dropping of a
marker, and `ofLiteral_marked` says that an address literal denotes it. The short form of an address
is a literal for it again (`exists_shown_shorten`), and normal forms stay as they are. Of either
marker, `0x` or `0X`, a literal denotes its own normal form (`of_ofLiteral`).
-/

namespace MoveText.Address

/-! ### Literals -/

/-- The normal form of an address with the given digits. -/
def padded (digits : Text) : Text :=
  '0' :: 'x' :: (List.replicate (digitCount - digits.length) '0' ++ digits.map Char.toLower)

/-- Digits are not taken for a marker. -/
private theorem dropMarker_of_isHexDigit {s : Text} (hs : ∀ c ∈ s, Text.isHexDigit c) :
    dropMarker s = s := by
  unfold dropMarker
  split
  · exact absurd (hs 'x' (by simp)) (by decide)
  · rfl

/-- Digits in small letters are digits. -/
private theorem isHexDigit_of_mem_map_toLower {digits : Text}
    (hdigits : ∀ c ∈ digits, Text.isHexDigit c) :
    ∀ c ∈ digits.map Char.toLower, Text.isHexDigit c := by
  intro c hc
  obtain ⟨d, hd, rfl⟩ := List.mem_map.mp hc
  exact Text.isHexDigit_of_isLowerHexDigit (Text.isLowerHexDigit_toLower (hdigits d hd))

theorem normalize_of_isHexDigit {digits : Text} (hdigits : ∀ c ∈ digits, Text.isHexDigit c) :
    normalize digits = padded digits := by
  have hlower := isHexDigit_of_mem_map_toLower hdigits
  rw [normalize, normalDigits,
    Text.lowercase_of_isAscii fun c hc => Text.isAscii_of_isHexDigit (hdigits c hc),
    dropMarker_of_isHexDigit hlower, Text.padLeft,
    Text.units_of_isAscii fun c hc => Text.isAscii_of_isHexDigit (hlower c hc), List.length_map,
    padded]

/-- **What an address literal denotes**: the address with its digits, if these are not too many. -/
theorem ofLiteral_marked {digits : Text} (hne : digits ≠ [])
    (hdigits : ∀ c ∈ digits, Text.isHexDigit c) :
    ofLiteral ('0' :: 'x' :: digits) =
      if digitCount < digits.length then .error (.longAddress ('0' :: 'x' :: digits))
      else .ok (padded digits) := by
  have hliteral : literalDigits? ('0' :: 'x' :: digits) = some digits := by
    simpa [literalDigits?] using And.intro hne hdigits
  rw [ofLiteral, hliteral, ← normalize_of_isHexDigit hdigits]

/-! ### Normal forms -/

theorem isNormal_iff {s : Text} :
    isNormal s ↔ ∃ digits, s = '0' :: 'x' :: digits ∧ (∀ c ∈ digits, Text.isLowerHexDigit c) ∧
      digits.length = digitCount := by
  unfold isNormal
  split
  · simp
  · next hshape => simpa using fun digits hs => (hshape digits hs).elim

/-- The normal form is one. -/
theorem isNormal_padded {digits : Text} (hdigits : ∀ c ∈ digits, Text.isHexDigit c)
    (hlength : digits.length ≤ digitCount) : isNormal (padded digits) := by
  refine isNormal_iff.mpr ⟨_, rfl, fun c hc => ?_, ?_⟩
  · rcases List.mem_append.mp hc with hc | hc
    · rw [List.eq_of_mem_replicate hc]
      decide
    · obtain ⟨d, hd, rfl⟩ := List.mem_map.mp hc
      exact Text.isLowerHexDigit_toLower (hdigits d hd)
  · rw [List.length_append, List.length_replicate, List.length_map]
    omega

theorem normalDigits_of_full {digits : Text} (hdigits : ∀ c ∈ digits, Text.isLowerHexDigit c)
    (hlength : digits.length = digitCount) : normalDigits ('0' :: 'x' :: digits) = digits := by
  have hascii : ∀ c ∈ digits, Text.isAscii c := fun c hc =>
    Text.isAscii_of_isHexDigit (Text.isHexDigit_of_isLowerHexDigit (hdigits c hc))
  have hlower : Text.lowercase ('0' :: 'x' :: digits) = '0' :: 'x' :: digits := by
    rw [Text.lowercase_of_isAscii, List.map_cons, List.map_cons,
      Text.map_toLower_of_isLowerHexDigit hdigits]
    · rfl
    · simpa using And.intro (by decide) (And.intro (by decide) hascii)
  rw [normalDigits, hlower, dropMarker, Text.padLeft, Text.units_of_isAscii hascii, hlength,
    Nat.sub_self, List.replicate_zero, List.nil_append]

/-- A normal form is its own normal form. -/
theorem normalize_of_isNormal {s : Text} (hs : isNormal s) : normalize s = s := by
  obtain ⟨digits, rfl, hdigits, hlength⟩ := isNormal_iff.mp hs
  rw [normalize, normalDigits_of_full hdigits hlength]

/-! ### Short forms -/

/-- Filling up with zeros undoes the stripping of leading zeros. -/
private theorem replicate_append_dropWhile (digits : Text) :
    List.replicate (digits.length - (digits.dropWhile (· == '0')).length) '0' ++
      digits.dropWhile (· == '0') = digits := by
  induction digits with
  | nil => rfl
  | cons c digits ih =>
    rw [List.dropWhile_cons]
    split_ifs with hc
    · have hle := (List.dropWhile_suffix (l := digits) (· == '0')).length_le
      rw [List.length_cons, Nat.succ_sub hle, List.replicate_succ, List.cons_append, ih,
        beq_iff_eq.mp hc]
    · simp

/-- **The short form is a literal**: its digits, of which there is one at least, stand for the
address. -/
theorem exists_shown_shorten {s : Text} (hs : isNormal s) :
    ∃ shown, shorten s = '0' :: 'x' :: shown ∧ shown ≠ [] ∧
      (∀ c ∈ shown, Text.isLowerHexDigit c) ∧ shown.length ≤ digitCount ∧ padded shown = s := by
  obtain ⟨digits, rfl, hdigits, hlength⟩ := isNormal_iff.mp hs
  have hfill := replicate_append_dropWhile digits
  have hle := (List.dropWhile_suffix (l := digits) (· == '0')).length_le
  rw [hlength] at hfill hle
  rw [shorten, normalDigits_of_full hdigits hlength]
  split
  · next hzeros =>
    rw [hzeros] at hfill
    refine ⟨['0'], rfl, by simp, by simp [Text.isLowerHexDigit], by decide, ?_⟩
    rw [← hfill]
    rfl
  · next hshown =>
    have hin : ∀ c ∈ digits.dropWhile (· == '0'), Text.isLowerHexDigit c := fun c hc =>
      hdigits c ((List.dropWhile_suffix _).subset hc)
    refine ⟨_, rfl, hshown, hin, hle, ?_⟩
    rw [padded, Text.map_toLower_of_isLowerHexDigit hin, hfill]

/-- **A short literal**: the small marker and small digits, and no zero in front but in `0x0`. -/
def IsShort (s : Text) : Prop :=
  ∃ digits, s = '0' :: 'x' :: digits ∧ (∀ c ∈ digits, Text.isLowerHexDigit c) ∧
    (digits = ['0'] ∨ digits ≠ [] ∧ digits.head? ≠ some '0')

theorem isShort_shorten {s : Text} (hs : isNormal s) : IsShort (shorten s) := by
  obtain ⟨digits, rfl, hdigits, hlength⟩ := isNormal_iff.mp hs
  rw [shorten, normalDigits_of_full hdigits hlength]
  split
  · exact ⟨['0'], rfl, by simp [Text.isLowerHexDigit], .inl rfl⟩
  · next hshown =>
    refine ⟨_, rfl, fun c hc => hdigits c ((List.dropWhile_suffix _).subset hc),
      .inr ⟨hshown, fun hzero => ?_⟩⟩
    have hhead := List.head?_dropWhile_not (· == '0') digits
    simp [hzero] at hhead

/-- The short literal of an address is its short form. -/
theorem shorten_padded {digits : Text} (hshort : IsShort ('0' :: 'x' :: digits))
    (hlength : digits.length ≤ digitCount) : shorten (padded digits) = '0' :: 'x' :: digits := by
  obtain ⟨_, ⟨⟩, hdigits, hzeros⟩ := hshort
  have hnormal := isNormal_padded (fun c hc => Text.isHexDigit_of_isLowerHexDigit (hdigits c hc))
    hlength
  rw [padded, Text.map_toLower_of_isLowerHexDigit hdigits] at hnormal ⊢
  obtain ⟨_, ⟨⟩, hfilled, hfull⟩ := isNormal_iff.mp hnormal
  rw [shorten, normalDigits_of_full hfilled hfull, List.dropWhile_append_of_pos (by simp)]
  rcases hzeros with rfl | ⟨hne, hzero⟩
  · rfl
  · cases digits with
    | nil => exact absurd rfl hne
    | cons c digits =>
      rw [List.dropWhile_cons_of_neg (by simpa using hzero)]

/-! ### What literals denote -/

theorem literalDigits?_eq_some_iff {s digits : Text} :
    literalDigits? s = some digits ↔ (∃ marker, (marker = 'x' ∨ marker = 'X') ∧
      s = '0' :: marker :: digits) ∧ digits ≠ [] ∧ ∀ c ∈ digits, Text.isHexDigit c := by
  unfold literalDigits?
  split
  · next marker found =>
    simp only [Bool.and_eq_true, Bool.or_eq_true, beq_iff_eq, Bool.not_eq_true',
      List.isEmpty_eq_false_iff, List.all_eq_true, Option.ite_none_right_eq_some,
      Option.some.injEq, List.cons.injEq, true_and]
    constructor
    · rintro ⟨⟨⟨hmarker, hne⟩, hdigits⟩, rfl⟩
      exact ⟨⟨marker, hmarker, rfl, rfl⟩, hne, hdigits⟩
    · rintro ⟨⟨_, hmarker, rfl, rfl⟩, hne, hdigits⟩
      exact ⟨⟨⟨hmarker, hne⟩, hdigits⟩, rfl⟩
  · next hshape =>
    refine iff_of_false (by simp) ?_
    rintro ⟨⟨marker, -, rfl⟩, -⟩
    exact hshape _ _ rfl

/-- The marker of a literal makes no difference to its normal form. -/
theorem normalize_marked {marker : Char} (hmarker : marker = 'x' ∨ marker = 'X')
    {digits : Text} (hdigits : ∀ c ∈ digits, Text.isHexDigit c) :
    normalize ('0' :: marker :: digits) = normalize digits := by
  have hascii : ∀ c ∈ digits, Text.isAscii c := fun c hc =>
    Text.isAscii_of_isHexDigit (hdigits c hc)
  have hmarked : Text.lowercase ('0' :: marker :: digits) =
      '0' :: 'x' :: digits.map Char.toLower := by
    rw [Text.lowercase_of_isAscii]
    · rcases hmarker with rfl | rfl <;> rfl
    · rcases hmarker with rfl | rfl <;>
        simpa using And.intro (by decide) (And.intro (by decide) hascii)
  rw [normalize, normalize, normalDigits, normalDigits, hmarked, Text.lowercase_of_isAscii hascii,
    dropMarker_of_isHexDigit (isHexDigit_of_mem_map_toLower hdigits), dropMarker]

/-- **What a literal denotes is its normal form**, which is that of an address. -/
theorem of_ofLiteral {s address : Text} (h : ofLiteral s = .ok address) :
    address = normalize s ∧ isNormal (normalize s) := by
  rw [ofLiteral] at h
  split at h
  · cases h
  · next digits hliteral =>
    obtain ⟨⟨marker, hmarker, rfl⟩, -, hdigits⟩ := literalDigits?_eq_some_iff.mp hliteral
    split_ifs at h with hlong
    rw [normalize_marked hmarker hdigits]
    refine ⟨(Except.ok.inj h).symm, ?_⟩
    rw [normalize_of_isHexDigit hdigits]
    exact isNormal_padded hdigits (Nat.le_of_not_lt hlong)

end MoveText.Address
