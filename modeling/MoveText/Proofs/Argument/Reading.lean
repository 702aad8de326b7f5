import MoveText.Argument.Grammar
import MoveText.Proofs.Address.Literal
import MoveText.Proofs.Number.Numeral
import MoveText.Proofs.Text.Hex
import MoveText.Proofs.Token.Items
import MoveText.Proofs.Token.Safety

/-!
# What the reader of arguments finds

An argument is one token. On a token that is spelled in a text, `Argument.ofToken` gives an argument
in range, an integer that fits its width or an address in normal form, or it stops because something
does not fit (`meets_read`). A number that is spelled is a numeral, and the token of a byte string
holds nothing but digits, so neither of these is ever found to be amiss.
-/

namespace MoveText

namespace Text

theorem isHexDigit_of_mem_hexOfCodes {s : Text} (hs : ∀ c ∈ s, isAscii c) {d : Char}
    (hd : d ∈ hexOfCodes s) : isHexDigit d := by
  rw [← hexOfBytes_encodeUtf8 hs] at hd
  exact isHexDigit_of_isLowerHexDigit (isLowerHexDigit_of_mem_hexOfBytes hd)

end Text

namespace Argument

/-- The integer fits its width, or the address is in normal form. -/
def InRange : Argument → Prop
  | integer width value => 0 ≤ value ∧ value ≤ width.max
  | bool _ => True
  | address value => Address.isNormal value
  | bytes _ => True

variable {nests : Prop}

/-! ### What spelled tokens stand for -/

/-- A row of decimal digits stands for its number, if that fits the width. -/
theorem ofNumeral_of_isDigit (width : Width) {digits : Text} (hne : digits ≠ [])
    (hdigits : ∀ c ∈ digits, c.isDigit) :
    ofNumeral width digits =
      if width.max < Text.digitsValue 10 digits then .error (.overflow width digits)
      else .ok (integer width (Text.digitsValue 10 digits)) := by
  rw [ofNumeral, Text.readInteger?_of_isDigit hne hdigits]
  simp only [Int.ofNat_lt]

/-- A row of hexadecimal digits stands for its bytes, if they go in pairs. -/
theorem ofHex_of_isHexDigit {digits : Text} (hdigits : ∀ c ∈ digits, Text.isHexDigit c) :
    ofHex digits =
      if digits.length % 2 ≠ 0 then .error (.oddBytes digits)
      else .ok (bytes (Text.bytesOfHex digits)) := by
  have hunits : Text.units digits = digits.length :=
    Text.units_of_isAscii fun c hc => Text.isAscii_of_isHexDigit (hdigits c hc)
  have hall : digits.all Text.isHexDigit = true := List.all_eq_true.mpr hdigits
  rw [ofHex, hunits, if_pos hall]

private theorem meets_ofNumeral (width : Width) {digits : Text} (hne : digits ≠ [])
    (hdigits : ∀ c ∈ digits, c.isDigit) :
    TokenReader.Meets nests InRange (.ofExcept (ofNumeral width digits)) := by
  rw [ofNumeral_of_isDigit width hne hdigits]
  split_ifs with hgreat
  · exact TokenReader.meets_fail (.overflow hdigits hgreat)
  · refine TokenReader.meets_pure ⟨by omega, ?_⟩
    exact_mod_cast Nat.le_of_not_lt hgreat

private theorem meets_ofHex {digits : Text} (hdigits : ∀ c ∈ digits, Text.isHexDigit c) :
    TokenReader.Meets nests InRange (.ofExcept (ofHex digits)) := by
  rw [ofHex_of_isHexDigit hdigits]
  split_ifs with hodd
  · exact TokenReader.meets_fail (.oddBytes hdigits (by omega))
  · exact TokenReader.meets_pure trivial

/-- The argument of an address token. -/
theorem ofToken_address {digits : Text} (hne : digits ≠ [])
    (hdigits : ∀ c ∈ digits, Text.isHexDigit c) :
    ofToken ⟨.address, some ('0' :: 'x' :: digits)⟩ =
      if 64 < digits.length then .error (.longAddress ('0' :: 'x' :: digits))
      else .ok (address (Address.padded digits)) := by
  change (Address.ofLiteral ('0' :: 'x' :: digits) >>= fun s => .ok (address s)) = _
  rw [Address.ofLiteral_marked hne hdigits, Address.digitCount]
  split_ifs <;> rfl

/-- **The reader of arguments** finds an argument in range, or stops for a reason that a text can
give. -/
theorem meets_read : TokenReader.Meets nests InRange read := by
  refine TokenReader.meets_next_bind (fun token word hspells => ?_)
    ⟨_, rfl, .unexpected .argument .eof⟩
  cases hspells with
  | number hne hdigits => exact meets_ofNumeral .u64 hne hdigits
  | @sizedNumber width digits hne hdigits => exact meets_ofNumeral width hne hdigits
  | keyword k =>
    cases k with
    | truth value => exact TokenReader.meets_pure trivial
    | _ => exact TokenReader.meets_fail (.unexpected .argument _)
  | address hmarker hne hdigits =>
    rw [ofToken_address hne hdigits]
    split_ifs with hlong
    · exact TokenReader.meets_fail (.longAddress hdigits hlong)
    · exact TokenReader.meets_pure
        (Address.isNormal_padded hdigits (Nat.le_of_not_lt hlong))
  | asciiBytes hbody =>
    exact meets_ofHex fun d => Text.isHexDigit_of_mem_hexOfCodes fun c hc => (hbody c hc).1
  | hexBytes hbody => exact meets_ofHex hbody
  | _ => exact TokenReader.meets_fail (.unexpected .argument _)

theorem advances_read : TokenReader.Advances read :=
  TokenReader.advances_next.bind fun _ => TokenReader.advances_ofExcept _

/-- **The reader of arguments takes one token**, which stands for the argument. -/
theorem takes_read : TokenReader.Takes read fun words a =>
    ∃ t, words = [t] ∧ ofToken t = .ok a where
  advances := advances_read
  sound {tokens rest a} _ hread := by
    obtain ⟨t, mid, hnext, hread⟩ := TokenReader.bind_eq_ok_iff.mp hread
    obtain ⟨ht, rfl⟩ := TokenReader.ofExcept_eq_ok_iff.mp hread
    exact ⟨[t], TokenReader.next_eq_ok_iff.mp hnext, t, rfl, ht⟩
  complete := by
    rintro _ tail a closing ⟨t, rfl, ht⟩ - -
    exact TokenReader.bind_eq_ok_iff.mpr ⟨t, closing :: tail, TokenReader.next_eq_ok_iff.mpr rfl,
      TokenReader.ofExcept_eq_ok_iff.mpr ⟨ht, rfl⟩⟩
  starts := by
    rintro _ a ⟨t, rfl, ht⟩
    exact ⟨t, [], rfl, by rintro rfl; cases ht⟩

end Argument

end MoveText
