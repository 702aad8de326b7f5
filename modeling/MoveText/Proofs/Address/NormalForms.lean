import MoveText.Proofs.Address.AnyText
import MoveText.Proofs.Text.HexNumber

/-!
# The number of an address literal

A literal denotes the number of its digits (`Denotes`), whatever their case, its marker and the
zeros in front. The normal form that is made of a literal denotes the same number, and so does the
short form, from which the normal form is made again. Two literals have one normal form, or one
short form, exactly when they denote one number (`normal_forms_keep_number`).
-/

namespace MoveText.Address

variable {s t address digits : Text} {n m : Nat}

/-- The literal `s` denotes the number `n`: its digits, behind either marker, are those of `n`, with
any number of zeros in front. -/
def Denotes (s : Text) (n : Nat) : Prop :=
  ∃ marker digits, (marker = 'x' ∨ marker = 'X') ∧ digits ≠ [] ∧ (∀ c ∈ digits, Text.isHexDigit c) ∧
    s = '0' :: marker :: digits ∧ Text.digitsValue 16 digits = n

theorem Denotes.unique (hn : Denotes s n) (hm : Denotes s m) : n = m := by
  obtain ⟨_, _, -, -, -, rfl, rfl⟩ := hn
  obtain ⟨_, _, -, -, -, hs, rfl⟩ := hm
  obtain ⟨-, rfl⟩ := List.cons.inj (List.cons.inj hs).2
  rfl

/-! ### Which texts are literals -/

/-- **The literals that are accepted**: up to 64 digits behind a marker, which stand for their
normal form. -/
theorem ofLiteral_eq_ok_iff :
    ofLiteral s = .ok address ↔ ∃ marker digits, (marker = 'x' ∨ marker = 'X') ∧ digits ≠ [] ∧
      (∀ c ∈ digits, Text.isHexDigit c) ∧ digits.length ≤ digitCount ∧
      s = '0' :: marker :: digits ∧ padded digits = address := by
  rw [ofLiteral]
  constructor
  · intro h
    split at h
    · cases h
    · next digits hliteral =>
      obtain ⟨⟨marker, hmarker, rfl⟩, hne, hdigits⟩ := literalDigits?_eq_some_iff.mp hliteral
      split_ifs at h with hlong
      exact ⟨marker, digits, hmarker, hne, hdigits, Nat.le_of_not_lt hlong, rfl,
        (normalize_of_isHexDigit hdigits).symm.trans (Except.ok.inj h)⟩
  · rintro ⟨marker, digits, hmarker, hne, hdigits, hlength, rfl, rfl⟩
    rw [literalDigits?_eq_some_iff.mpr ⟨⟨marker, hmarker, rfl⟩, hne, hdigits⟩]
    dsimp only
    rw [if_neg (Nat.not_lt.mpr hlength), normalize_of_isHexDigit hdigits]

/-- The short form of an address is a literal for it. -/
theorem ofLiteral_shorten (hs : isNormal s) : ofLiteral (shorten s) = .ok s := by
  obtain ⟨shown, heq, hne, hshown, hlength, hpadded⟩ := exists_shown_shorten hs
  exact ofLiteral_eq_ok_iff.mpr ⟨'x', shown, .inl rfl, hne,
    fun c hc => Text.isHexDigit_of_isLowerHexDigit (hshown c hc), hlength, heq, hpadded⟩

/-! ### Literals and normal forms have one number -/

/-- The normal form of digits denotes their number. -/
private theorem denotes_padded (hdigits : ∀ c ∈ digits, Text.isHexDigit c)
    (hlength : digits.length ≤ digitCount) :
    Denotes (padded digits) (Text.digitsValue 16 digits) := by
  obtain ⟨filled, hfilled, hlower, hfull⟩ := isNormal_iff.mp (isNormal_padded hdigits hlength)
  refine ⟨'x', filled, .inl rfl, ?_, fun c hc => Text.isHexDigit_of_isLowerHexDigit (hlower c hc),
    hfilled, ?_⟩
  · rintro rfl
    cases hfull
  · obtain ⟨-, rfl⟩ := List.cons.inj (List.cons.inj hfilled).2
    rw [Text.digitsValue_replicate_append, Text.digitsValue_map_toLower hdigits]

/-- **A literal that is accepted denotes a number**, which its normal form denotes too. -/
theorem exists_denotes (h : ofLiteral s = .ok address) : ∃ n, Denotes s n ∧ Denotes address n := by
  obtain ⟨marker, digits, hmarker, hne, hdigits, hlength, rfl, rfl⟩ := ofLiteral_eq_ok_iff.mp h
  exact ⟨_, ⟨marker, digits, hmarker, hne, hdigits, rfl, rfl⟩, denotes_padded hdigits hlength⟩

private theorem denotes_of_ofLiteral (h : ofLiteral s = .ok address) (hs : Denotes s n) :
    Denotes address n := by
  obtain ⟨m, hsm, haddress⟩ := exists_denotes h
  rwa [hs.unique hsm]

/-- Normal forms are told by their numbers. -/
private theorem eq_of_denotes (hs : isNormal s) (ht : isNormal t) (hsn : Denotes s n)
    (htn : Denotes t n) : s = t := by
  obtain ⟨digits, rfl, hdigits, hlength⟩ := isNormal_iff.mp hs
  obtain ⟨digits', rfl, hdigits', hlength'⟩ := isNormal_iff.mp ht
  obtain ⟨_, _, -, -, -, ⟨⟩, hvalue⟩ := hsn
  obtain ⟨_, _, -, -, -, ⟨⟩, hvalue'⟩ := htn
  rw [Text.eq_of_digitsValue_eq hdigits hdigits' (hlength.trans hlength'.symm)
    (hvalue.trans hvalue'.symm)]

/-- Two literals have one normal form exactly when they denote one number. -/
theorem ofLiteral_eq_iff {address' : Text} (h : ofLiteral s = .ok address)
    (h' : ofLiteral t = .ok address') (hs : Denotes s n) (ht : Denotes t m) :
    address = address' ↔ n = m := by
  have haddress := denotes_of_ofLiteral h hs
  have haddress' := denotes_of_ofLiteral h' ht
  constructor
  · rintro rfl
    exact haddress.unique haddress'
  · rintro rfl
    obtain ⟨rfl, hnormal⟩ := of_ofLiteral h
    obtain ⟨rfl, hnormal'⟩ := of_ofLiteral h'
    exact eq_of_denotes hnormal hnormal' haddress haddress'

/-- Addresses are told by their short forms. -/
theorem shorten_eq_iff (hs : isNormal s) (ht : isNormal t) : shorten s = shorten t ↔ s = t := by
  refine ⟨fun h => ?_, fun h => h ▸ rfl⟩
  have hliteral := ofLiteral_shorten hs
  rw [h, ofLiteral_shorten ht] at hliteral
  exact (Except.ok.inj hliteral).symm

/-! ### The forms together -/

/-- **Normal forms keep the number, and short forms undo them**: a literal that is accepted gives a
normal form with its number, which is made of the literal and of the short form alike. Literals
share a normal form, and a short form, if they share a number, and only then. Of any text
whatsoever, making a form twice changes nothing. -/
theorem normal_forms_keep_number :
    (∀ s address, ofLiteral s = .ok address →
      isNormal address ∧ (∃ n, Denotes s n ∧ Denotes address n) ∧ address = normalize s ∧
      shorten s = shorten address ∧ ofLiteral (shorten address) = .ok address ∧
      normalize (shorten address) = address) ∧
    (∀ s t address address' n m, ofLiteral s = .ok address → ofLiteral t = .ok address' →
      Denotes s n → Denotes t m →
      (address = address' ↔ n = m) ∧ (shorten s = shorten t ↔ n = m)) ∧
    ∀ s, normalize (normalize s) = normalize s ∧ shorten (shorten s) = shorten s ∧
      shorten (normalize s) = shorten s := by
  refine ⟨fun s address h => ?_, fun s t address address' n m h h' hs ht => ?_, fun s =>
    ⟨normalize_normalize s, shorten_shorten s, shorten_normalize s⟩⟩
  · have hdenotes := exists_denotes h
    obtain ⟨rfl, hnormal⟩ := of_ofLiteral h
    have hshort := ofLiteral_shorten hnormal
    exact ⟨hnormal, hdenotes, rfl, (shorten_normalize s).symm, hshort, (of_ofLiteral hshort).1.symm⟩
  · have hsame := ofLiteral_eq_iff h h' hs ht
    obtain ⟨rfl, hnormal⟩ := of_ofLiteral h
    obtain ⟨rfl, hnormal'⟩ := of_ofLiteral h'
    refine ⟨hsame, ?_⟩
    rw [← shorten_normalize s, ← shorten_normalize t, shorten_eq_iff hnormal hnormal', hsame]

/-- Two spellings of ten have the forms of ten. -/
theorem normal_forms_keep_number_ten :
    (isNormal (normalize "0X0a".toList) ∧
      normalize (shorten (normalize "0X0a".toList)) = normalize "0X0a".toList) ∧
    shorten "0X0a".toList = shorten "0xA".toList := by
  have hleft : ofLiteral "0X0a".toList = .ok (normalize "0X0a".toList) := by decide +kernel
  have hright : ofLiteral "0xA".toList = .ok (normalize "0xA".toList) := by decide +kernel
  obtain ⟨hone, htwo, -⟩ := normal_forms_keep_number
  obtain ⟨hnormal, -, -, -, -, hback⟩ := hone _ _ hleft
  have hten : Denotes "0X0a".toList 10 :=
    ⟨'X', "0a".toList, .inr rfl, by decide, List.all_eq_true.mp rfl, rfl, by decide⟩
  have hten' : Denotes "0xA".toList 10 :=
    ⟨'x', "A".toList, .inl rfl, by decide, List.all_eq_true.mp rfl, rfl, by decide⟩
  exact ⟨⟨hnormal, hback⟩, (htwo _ _ _ _ _ _ hleft hright hten hten').2.mpr rfl⟩

end MoveText.Address
