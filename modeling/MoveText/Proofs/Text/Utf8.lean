import Mathlib.Tactic.SplitIfs
import MoveText.Proofs.Text.Hex
import MoveText.Text.Utf8

/-!
# UTF-8 read back

Every text is read back from its bytes (`decodeUtf8_encodeUtf8`). The reader of string bodies takes
any bytes and drops a byte order mark in front, so writing gives bytes back only where nothing had
to be replaced and nothing was dropped: `encodeUtf8_decodeText_iff` says when that is.
-/

namespace MoveText.Text

/-! ### Single characters -/

private theorem isTrail_iff {b : UInt8} : isTrail b ↔ 0x80 ≤ b.toNat ∧ b.toNat ≤ 0xbf := by
  simp [isTrail]

private theorem isSecondOfThree_iff {lead b : UInt8} :
    isSecondOfThree lead b ↔ (0x80 ≤ b.toNat ∧ b.toNat ≤ 0xbf) ∧
      (lead.toNat ≠ 0xe0 ∨ 0xa0 ≤ b.toNat) ∧ (lead.toNat ≠ 0xed ∨ b.toNat ≤ 0x9f) := by
  simp [isSecondOfThree, isTrail_iff, and_assoc]

private theorem isSecondOfFour_iff {lead b : UInt8} :
    isSecondOfFour lead b ↔ (0x80 ≤ b.toNat ∧ b.toNat ≤ 0xbf) ∧
      (lead.toNat ≠ 0xf0 ∨ 0x90 ≤ b.toNat) ∧ (lead.toNat ≠ 0xf4 ∨ b.toNat ≤ 0x8f) := by
  simp [isSecondOfFour, isTrail_iff, and_assoc]

/-- A number is made up again of the bits that its bytes hold. -/
private theorem addTrail_ofNat {bits low : Nat} (hlow : low < 64) :
    addTrail bits (UInt8.ofNat (0x80 + low)) = bits * 64 + low := by
  have hsmall : 0x80 + low < 256 := by omega
  have hbyte := toNat_ofNat_of_lt hsmall
  unfold addTrail
  omega

private theorem decodeUtf8_one {lead : UInt8} (hlead : lead.toNat < 0x80) (rest : Bytes) :
    decodeUtf8 (lead :: rest) = Char.ofNat lead.toNat :: decodeUtf8 rest := by
  rw [decodeUtf8.eq_def]
  simp only [if_pos hlead]

private theorem decodeUtf8_two {lead b : UInt8} (hlead : 0xc2 ≤ lead.toNat ∧ lead.toNat ≤ 0xdf)
    (hb : isTrail b) (rest : Bytes) :
    decodeUtf8 (lead :: b :: rest) =
      Char.ofNat (addTrail (lead.toNat - 0xc0) b) :: decodeUtf8 rest := by
  have hone : ¬ lead.toNat < 0x80 := by omega
  rw [decodeUtf8.eq_def]
  simp only [if_neg hone, decide_eq_true hlead.1, decide_eq_true hlead.2, Bool.and_self, if_true,
    if_pos hb]

private theorem decodeUtf8_three {lead b₁ b₂ : UInt8}
    (hlead : 0xe0 ≤ lead.toNat ∧ lead.toNat ≤ 0xef) (hsecond : isSecondOfThree lead b₁)
    (hthird : isTrail b₂) (rest : Bytes) :
    decodeUtf8 (lead :: b₁ :: b₂ :: rest) =
      Char.ofNat (addTrail (addTrail (lead.toNat - 0xe0) b₁) b₂) :: decodeUtf8 rest := by
  have hone : ¬ lead.toNat < 0x80 := by omega
  have htwo : ¬ lead.toNat ≤ 0xdf := by omega
  rw [decodeUtf8.eq_def]
  simp only [if_neg hone, decide_eq_false htwo, Bool.and_false, Bool.false_eq_true, if_false,
    decide_eq_true hlead.1, decide_eq_true hlead.2, Bool.and_self, if_true, if_pos hsecond,
    if_pos hthird]

private theorem decodeUtf8_four {lead b₁ b₂ b₃ : UInt8}
    (hlead : 0xf0 ≤ lead.toNat ∧ lead.toNat ≤ 0xf4) (hsecond : isSecondOfFour lead b₁)
    (hthird : isTrail b₂) (hfourth : isTrail b₃) (rest : Bytes) :
    decodeUtf8 (lead :: b₁ :: b₂ :: b₃ :: rest) =
      Char.ofNat (addTrail (addTrail (addTrail (lead.toNat - 0xf0) b₁) b₂) b₃) ::
        decodeUtf8 rest := by
  have hone : ¬ lead.toNat < 0x80 := by omega
  have htwo : ¬ lead.toNat ≤ 0xdf := by omega
  have hthree : ¬ lead.toNat ≤ 0xef := by omega
  rw [decodeUtf8.eq_def]
  simp only [if_neg hone, decide_eq_false htwo, decide_eq_false hthree, Bool.and_false,
    Bool.false_eq_true, if_false, decide_eq_true hlead.1, decide_eq_true hlead.2, Bool.and_self,
    if_true, if_pos hsecond, if_pos hthird, if_pos hfourth]

/-- **A character is read back from its bytes**, whatever follows. -/
theorem decodeUtf8_encodeUtf8Char (c : Char) (rest : Bytes) :
    decodeUtf8 (encodeUtf8Char c ++ rest) = c :: decodeUtf8 rest := by
  -- no character lies among the surrogates or above the last plane
  have hvalid : c.toNat < 0xd800 ∨ 0xdfff < c.toNat ∧ c.toNat < 0x110000 := c.valid
  have hmade : ∀ {n : Nat}, n = c.toNat → Char.ofNat n :: decodeUtf8 rest = c :: decodeUtf8 rest :=
    fun h => by rw [h, Char.ofNat_toNat]
  have htrail : ∀ {low : Nat}, low < 64 → isTrail (UInt8.ofNat (0x80 + low)) := fun hlow => by
    rw [isTrail_iff, toNat_ofNat_of_lt (by omega)]
    omega
  rw [encodeUtf8Char]
  generalize hn : c.toNat = n at *
  split_ifs with hone htwo hthree
  · have hlead : (UInt8.ofNat n).toNat = n := toNat_ofNat_of_lt (by omega)
    refine (decodeUtf8_one (by omega) rest).trans (hmade ?_)
    rw [hlead]
  · have hlead : (UInt8.ofNat (0xc0 + n / 64)).toNat = 0xc0 + n / 64 :=
      toNat_ofNat_of_lt (by omega)
    refine (decodeUtf8_two (by omega) (htrail (by omega)) rest).trans (hmade ?_)
    rw [hlead, addTrail_ofNat (by omega)]
    omega
  · have hlead : (UInt8.ofNat (0xe0 + n / 4096)).toNat = 0xe0 + n / 4096 :=
      toNat_ofNat_of_lt (by omega)
    have hsecond : (UInt8.ofNat (0x80 + n / 64 % 64)).toNat = 0x80 + n / 64 % 64 :=
      toNat_ofNat_of_lt (by omega)
    refine (decodeUtf8_three (by omega) ?_ (htrail (by omega)) rest).trans (hmade ?_)
    -- below U+0800 there would be fewer bytes, and surrogates are no characters
    · rw [isSecondOfThree_iff, hlead, hsecond]
      omega
    · rw [hlead, addTrail_ofNat (by omega), addTrail_ofNat (by omega)]
      omega
  · have hlead : (UInt8.ofNat (0xf0 + n / 262144)).toNat = 0xf0 + n / 262144 :=
      toNat_ofNat_of_lt (by omega)
    have hsecond : (UInt8.ofNat (0x80 + n / 4096 % 64)).toNat = 0x80 + n / 4096 % 64 :=
      toNat_ofNat_of_lt (by omega)
    refine (decodeUtf8_four (by omega) ?_ (htrail (by omega)) (htrail (by omega)) rest).trans
      (hmade ?_)
    -- below U+10000 there would be fewer bytes, and above U+10FFFF are no characters
    · rw [isSecondOfFour_iff, hlead, hsecond]
      omega
    · rw [hlead, addTrail_ofNat (by omega), addTrail_ofNat (by omega), addTrail_ofNat (by omega)]
      omega

/-! ### Whole texts -/

private theorem encodeUtf8_cons (c : Char) (s : Text) :
    encodeUtf8 (c :: s) = encodeUtf8Char c ++ encodeUtf8 s := rfl

/-- A text is read back from its bytes, whatever follows. -/
theorem decodeUtf8_encodeUtf8_append (s : Text) (rest : Bytes) :
    decodeUtf8 (encodeUtf8 s ++ rest) = s ++ decodeUtf8 rest := by
  induction s with
  | nil => rfl
  | cons c s ih =>
    rw [encodeUtf8_cons, List.append_assoc, decodeUtf8_encodeUtf8Char, ih, List.cons_append]

/-- **A text is read back from its bytes.** -/
theorem decodeUtf8_encodeUtf8 (s : Text) : decodeUtf8 (encodeUtf8 s) = s := by
  simpa [decodeUtf8] using decodeUtf8_encodeUtf8_append s []

/-! ### String bodies -/

/-- The byte order mark. -/
def byteOrderMark : Char := '\ufeff'

/-- The text less one byte order mark in front. -/
def unmarked : Text → Text
  | '\ufeff' :: rest => rest
  | s => s

theorem unmarked_of_head?_ne {s : Text} (hs : s.head? ≠ some byteOrderMark) : unmarked s = s := by
  rw [unmarked.eq_def]
  split
  · exact absurd rfl hs
  · rfl

/-- **A string body is read as its text**, but for a byte order mark in front. -/
theorem decodeText_encodeUtf8_eq (s : Text) : decodeText (encodeUtf8 s) = unmarked s := by
  rw [decodeText, decodeUtf8_encodeUtf8]
  exact (unmarked.eq_def s).symm

/-- Without a byte order mark in front a string body is its text. -/
theorem decodeText_encodeUtf8 {s : Text} (hs : s.head? ≠ some byteOrderMark) :
    decodeText (encodeUtf8 s) = s := by
  rw [decodeText_encodeUtf8_eq, unmarked_of_head?_ne hs]

/-- The bytes are those of some text. -/
def IsUtf8 (bytes : Bytes) : Prop := ∃ s, encodeUtf8 s = bytes

/-- The three bytes of the byte order mark are in front. -/
def IsMarked (bytes : Bytes) : Prop := [0xef, 0xbb, 0xbf] <+: bytes

private theorem decodeText_of_isMarked {bytes : Bytes} (h : IsMarked bytes) :
    decodeUtf8 bytes = byteOrderMark :: decodeText bytes := by
  obtain ⟨rest, rfl⟩ := h
  have hmark : encodeUtf8Char byteOrderMark = [0xef, 0xbb, 0xbf] := by decide
  have hread : decodeUtf8 ([0xef, 0xbb, 0xbf] ++ rest) = byteOrderMark :: decodeUtf8 rest := by
    rw [← hmark, decodeUtf8_encodeUtf8Char]
  rw [decodeText, hread]
  rfl

/-- The text of the bytes starts with the mark only if the bytes do. -/
private theorem isMarked_encodeUtf8 {s : Text} (h : s.head? = some byteOrderMark) :
    IsMarked (encodeUtf8 s) := by
  cases s with
  | nil => cases h
  | cons c s =>
    obtain rfl := Option.some.inj h
    exact ⟨encodeUtf8 s, rfl⟩

/-- **When a string body is written back as it was read**: it has to be well-formed UTF-8, and to
have no byte order mark in front. -/
theorem encodeUtf8_decodeText_iff {bytes : Bytes} :
    encodeUtf8 (decodeText bytes) = bytes ↔ IsUtf8 bytes ∧ ¬ IsMarked bytes := by
  constructor
  · intro h
    refine ⟨⟨_, h⟩, fun hmarked => ?_⟩
    -- reading the text back would give the mark that was dropped
    have hread := decodeText_of_isMarked hmarked
    rw [← h, decodeUtf8_encodeUtf8, h] at hread
    exact List.cons_ne_self _ _ hread.symm
  · rintro ⟨⟨s, rfl⟩, hmarked⟩
    rw [decodeText_encodeUtf8 fun hs => hmarked (isMarked_encodeUtf8 hs)]

end MoveText.Text
