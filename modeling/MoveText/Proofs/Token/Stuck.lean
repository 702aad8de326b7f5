import MoveText.Proofs.Text.Ascii
import MoveText.Proofs.Token.Lexeme

/-!
# Where no lexeme can be read

`Lexeme.read` stops at the front of a text, or further along in two cases, which `Lexeme.Stuck`
lists: behind a run of digits to which other letters are glued than a width, and where the body of a
byte string ends without a quote. The offset is counted in units, and it lies within the text.
-/

namespace MoveText

namespace Lexeme

variable {s : Text} {cause : LexicalCause} {inner : Nat}

/-- **Where reading stops**: at the front, behind the digits of a number that a letter follows, or
at the first character of a byte string that neither belongs to its body nor closes it, if need be
at the end of the text. -/
inductive Stuck : Text → LexicalCause → Nat → Prop
  | front (s : Text) : Stuck s .unrecognized 0
  | suffix {digits rest : Text} {c : Char} (hne : digits ≠ []) (hdigits : ∀ d ∈ digits, d.isDigit)
      (hc : c.isAlpha) : Stuck (digits ++ c :: rest) .badSuffix (Text.units digits)
  | bytes {opener : Char} {isBody : Char → Bool} {body rest : Text}
      (hopener : opener = 'b' ∧ isBody = Text.isAscii ∨ opener = 'x' ∧ isBody = Text.isHexDigit)
      (hbody : ∀ c ∈ body, isBody c ∧ c ≠ '"')
      (hrest : Text.startsIn (fun c => isBody c || c == '"') rest = false) :
      Stuck (opener :: '"' :: (body ++ rest)) .unrecognized (2 + Text.units body)

/-- Reading stops within the text. -/
theorem Stuck.le (h : Stuck s cause inner) : inner ≤ Text.units s := by
  cases h with
  | front => exact Nat.zero_le _
  | suffix =>
    rw [Text.units_append]
    exact Nat.le_add_right _ _
  | @bytes opener _ body rest hopener =>
    have hpair : Text.units (opener :: '"' :: (body ++ rest)) =
        2 + (Text.units body + Text.units rest) := by
      rw [← Text.units_append]
      rcases hopener with ⟨rfl, -⟩ | ⟨rfl, -⟩ <;> simp [Text.units, Text.charUnits] <;> omega
    rw [hpair]
    omega

private theorem stuck_of_readNumber (hs : Text.startsIn Char.isDigit s)
    (h : readNumber s = .error (cause, inner)) : Stuck s cause inner := by
  have hdigits : ∀ d ∈ s.takeWhile Char.isDigit, d.isDigit := fun d => List.mem_takeWhile_imp
  have hne := Text.takeWhile_ne_nil_iff.mpr hs
  simp only [readNumber] at h
  split at h
  · cases h
  · next hsuffix =>
    split at h
    · cases h
    · cases h
      -- what follows the digits is a letter or a digit, and no digit
      have hstart := Text.takeWhile_ne_nil_iff.mp (mt List.isEmpty_iff.mpr hsuffix)
      obtain ⟨c, rest, hrest, halnum⟩ := Text.exists_cons_of_startsIn hstart
      have hc : c.isDigit = false := by
        have hstop := Text.startsIn_dropWhile Char.isDigit s
        rwa [hrest] at hstop
      have halpha : c.isAlpha := by
        rcases Text.isAlphanum_iff.mp halnum with halpha | hdigit
        · exact halpha
        · rw [hc] at hdigit
          cases hdigit
      have hunits : Text.units (s.takeWhile Char.isDigit) = (s.takeWhile Char.isDigit).length :=
        Text.units_of_isAscii fun d hd => Text.isAscii_of_isHexDigit <|
          Text.isHexDigit_iff.mpr (.inl (hdigits d hd))
      have hstuck : Stuck (s.takeWhile Char.isDigit ++ c :: rest) _ _ :=
        .suffix hne hdigits halpha
      rwa [← hrest, List.takeWhile_append_dropWhile, hunits] at hstuck

private theorem stuck_of_readBytes {opener : Char} {isBody : Char → Bool} {digits : Text → Text}
    (hopener : opener = 'b' ∧ isBody = Text.isAscii ∨ opener = 'x' ∧ isBody = Text.isHexDigit)
    (h : readBytes opener isBody digits s = .error (cause, inner)) :
    Stuck (opener :: '"' :: s) cause inner := by
  simp only [readBytes] at h
  split at h
  · cases h
  · next hquote =>
    cases h
    have hbody : ∀ c ∈ s.takeWhile (fun c => c != '"' && isBody c), isBody c ∧ c ≠ '"' := by
      intro c hc
      simpa [and_comm] using List.mem_takeWhile_imp hc
    have hascii : ∀ c, isBody c → Text.isAscii c := by
      intro c hc
      rcases hopener with ⟨-, rfl⟩ | ⟨-, rfl⟩
      · exact hc
      · exact Text.isAscii_of_isHexDigit hc
    have hrest : Text.startsIn (fun c => isBody c || c == '"')
        (s.dropWhile fun c => c != '"' && isBody c) = false := by
      have hstart := Text.startsIn_dropWhile (fun c => c != '"' && isBody c) s
      generalize s.dropWhile (fun c => c != '"' && isBody c) = rest at hquote hstart
      cases rest with
      | nil => rfl
      | cons c rest =>
        have hc : c ≠ '"' := fun hc => hquote rest (by rw [hc])
        simpa [hc] using hstart
    have hstuck := Stuck.bytes hopener hbody hrest
    rwa [List.takeWhile_append_dropWhile,
      Text.units_of_isAscii fun c hc => hascii c (hbody c hc).1] at hstuck

/-- **Where the lexer finds no lexeme**, it is stuck in one of these ways. -/
theorem stuck_of_read (h : read s = .error (cause, inner)) : Stuck s cause inner := by
  have haddress : ∀ {marker rest}, readAddress marker rest = .error (cause, inner) →
      Stuck s cause inner := by
    intro marker rest hread
    simp only [readAddress] at hread
    split_ifs at hread
    cases hread
    exact .front s
  unfold read at h
  split at h
  · cases h
  · cases h
  · cases h
  · cases h
  · exact haddress h
  · exact haddress h
  · exact stuck_of_readBytes (.inl ⟨rfl, rfl⟩) h
  · exact stuck_of_readBytes (.inr ⟨rfl, rfl⟩) h
  · split_ifs at h with hdigit hblank halpha
    · exact stuck_of_readNumber hdigit h
    · cases h
    · cases h
    · cases h
      exact .front _
  · cases h
    exact .front []

end Lexeme

end MoveText
