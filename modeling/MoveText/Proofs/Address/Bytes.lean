import MoveText.Proofs.Address.AnyText
import MoveText.Proofs.Text.Hex

/-!
# Addresses as bytes

An address, in whatever spelling, and its 32 bytes determine each other: the bytes stand for the
normal form of the spelling (`ofBytes_toBytes`), and this has the bytes it was made of
(`toBytes_ofBytes`).
-/

namespace MoveText.Address

variable {s : Text} {bytes : Bytes}

theorem isNormal_normalize_iff :
    isNormal (normalize s) ↔
      (∀ c ∈ normalDigits s, Text.isLowerHexDigit c) ∧ (normalDigits s).length = digitCount := by
  rw [isNormal_iff, normalize]
  simp

/-- Digits at full width are the normal form but for the marker. -/
private theorem normalize_of_full {digits : Text} (hdigits : ∀ c ∈ digits, Text.isLowerHexDigit c)
    (hlength : digits.length = digitCount) : normalize digits = '0' :: 'x' :: digits := by
  rw [normalize_of_isHexDigit fun c hc => Text.isHexDigit_of_isLowerHexDigit (hdigits c hc), padded,
    hlength, Nat.sub_self, List.replicate_zero, List.nil_append,
    Text.map_toLower_of_isLowerHexDigit hdigits]

/-! ### From spellings to bytes -/

theorem length_toBytes (h : isNormal (normalize s)) : (toBytes s).length = byteCount := by
  rw [toBytes, Text.length_bytesOfHex, (isNormal_normalize_iff.mp h).2]
  rfl

/-- **The bytes of a spelling stand for its normal form.** -/
theorem ofBytes_toBytes (h : isNormal (normalize s)) : ofBytes (toBytes s) = normalize s := by
  obtain ⟨hdigits, hlength⟩ := isNormal_normalize_iff.mp h
  have heven : (normalDigits s).length % 2 = 0 := by
    rw [hlength]
    rfl
  rw [ofBytes, toBytes, Text.hexOfBytes_bytesOfHex hdigits heven, normalize_of_full hdigits hlength]
  rfl

/-! ### From bytes to normal forms -/

private theorem length_hexOfBytes_eq (h : bytes.length = byteCount) :
    (Text.hexOfBytes bytes).length = digitCount := by
  rw [Text.length_hexOfBytes, h]
  rfl

private theorem ofBytes_eq (h : bytes.length = byteCount) :
    ofBytes bytes = '0' :: 'x' :: Text.hexOfBytes bytes :=
  normalize_of_full (fun _ => Text.isLowerHexDigit_of_mem_hexOfBytes) (length_hexOfBytes_eq h)

theorem isNormal_ofBytes (h : bytes.length = byteCount) : isNormal (ofBytes bytes) :=
  isNormal_iff.mpr ⟨_, ofBytes_eq h, fun _ => Text.isLowerHexDigit_of_mem_hexOfBytes,
    length_hexOfBytes_eq h⟩

/-- **The normal form has the bytes that it was made of.** -/
theorem toBytes_ofBytes (h : bytes.length = byteCount) : toBytes (ofBytes bytes) = bytes := by
  rw [ofBytes_eq h, toBytes, normalDigits_of_full (fun _ => Text.isLowerHexDigit_of_mem_hexOfBytes)
    (length_hexOfBytes_eq h), Text.bytesOfHex_hexOfBytes]

end MoveText.Address
