import Mathlib.Data.List.TakeWhile
import MoveText.Proofs.Token.Spelling

/-!
# The lexeme at the front of a text

`Lexeme.read` looks at one or two characters to choose among its routines, and the routines take
whole runs. Each routine gives lexemes that stand at the front of the text, and on a text with such
a lexeme at its front the right routine is chosen and gives that lexeme: this is
`Lexeme.read_eq_ok_iff`. A lexeme is never empty, so what is left of a text is shorter.
-/

namespace MoveText.Lexeme

variable {s : Text} {lexeme : Lexeme}

/-! ### What is read stands at the front -/

private theorem startsText_of_readAddress {marker : Char} (hmarker : marker = 'x' ∨ marker = 'X')
    (h : readAddress marker s = .ok lexeme) : lexeme.StartsText ('0' :: marker :: s) := by
  simp only [readAddress] at h
  split at h
  · cases h
  · next hne =>
    cases h
    exact ⟨by simp, .address hmarker (by simpa using hne) fun c => List.mem_takeWhile_imp,
      Text.startsIn_dropWhile _ _⟩

private theorem startsText_of_readNumber (hs : Text.startsIn Char.isDigit s)
    (h : readNumber s = .ok lexeme) : lexeme.StartsText s := by
  have hne := Text.takeWhile_ne_nil_iff.mpr hs
  simp only [readNumber] at h
  split at h
  · next hsuffix =>
    cases h
    exact ⟨by simp, .number hne fun c => List.mem_takeWhile_imp,
      Text.takeWhile_eq_nil_iff.mp (List.isEmpty_iff.mp hsuffix)⟩
  · split at h
    · next width hwidth =>
      cases h
      have hsuffix := Width.ofLabel?_eq_some_iff.mp hwidth
      refine ⟨by simp, ?_, Text.startsIn_dropWhile _ _⟩
      rw [← hsuffix]
      exact .sizedNumber hne fun c => List.mem_takeWhile_imp
    · cases h

/-- A byte string that is read is a body without quotes, all of its class, between two quotes. -/
private theorem eq_of_readBytes {opener : Char} {isBody : Char → Bool} {digits : Text → Text}
    (h : readBytes opener isBody digits s = .ok lexeme) :
    ∃ body rest, s = body ++ '"' :: rest ∧ (∀ c ∈ body, isBody c ∧ c ≠ '"') ∧
      lexeme = ⟨⟨.bytes, some (digits body)⟩, opener :: '"' :: (body ++ ['"']), rest⟩ := by
  simp only [readBytes] at h
  split at h
  · next rest hrest =>
    cases h
    refine ⟨_, rest, ?_, fun c hc => ?_, rfl⟩
    · rw [← hrest, List.takeWhile_append_dropWhile]
    · simpa [and_comm] using List.mem_takeWhile_imp hc
  · cases h

private theorem startsText_of_readBlanks (hs : Text.startsIn Text.isBlank s)
    (h : readBlanks s = .ok lexeme) : lexeme.StartsText s := by
  have hne := Text.takeWhile_ne_nil_iff.mpr hs
  cases h
  exact ⟨by simp, .blanks hne fun c => List.mem_takeWhile_imp, Text.startsIn_dropWhile _ _⟩

private theorem startsText_of_readWord {c : Char} (hc : c.isAlpha)
    (h : readWord (c :: s) = .ok lexeme) : lexeme.StartsText (c :: s) := by
  have hname : Text.isNameChar c := Text.isNameChar_iff.mpr (.inr (.inl hc))
  cases h
  refine ⟨by simp, ?_, ?_⟩
  · rw [List.takeWhile_cons_of_pos hname]
    exact Token.spells_ofWord hc fun d => List.mem_takeWhile_imp
  · rw [Token.continues_ofWord]
    exact Text.startsIn_dropWhile _ _

/-- **Soundness of the lexer**: a lexeme that is read stands at the front of the text. -/
theorem startsText_of_read (h : read s = .ok lexeme) : lexeme.StartsText s := by
  unfold read at h
  split at h
  · cases h; exact ⟨rfl, .lt, Text.startsIn_empty _⟩
  · cases h; exact ⟨rfl, .gt, Text.startsIn_empty _⟩
  · cases h; exact ⟨rfl, .comma, Text.startsIn_empty _⟩
  · cases h; exact ⟨rfl, .colonColon, Text.startsIn_empty _⟩
  · exact startsText_of_readAddress (.inl rfl) h
  · exact startsText_of_readAddress (.inr rfl) h
  · obtain ⟨body, rest, rfl, hbody, rfl⟩ := eq_of_readBytes h
    refine ⟨by simp, ?_, Text.startsIn_empty _⟩
    rw [Text.hexOfBytes_encodeUtf8 fun c hc => (hbody c hc).1]
    exact .asciiBytes hbody
  · obtain ⟨body, rest, rfl, hbody, rfl⟩ := eq_of_readBytes h
    exact ⟨by simp, .hexBytes fun c hc => (hbody c hc).1, Text.startsIn_empty _⟩
  · split_ifs at h with hdigit hblank halpha
    · exact startsText_of_readNumber hdigit h
    · exact startsText_of_readBlanks hblank h
    · exact startsText_of_readWord halpha h
  · cases h

/-! ### What stands at the front is read -/

private theorem readAddress_run {marker : Char} {digits rest : Text} (hne : digits ≠ [])
    (hdigits : ∀ c ∈ digits, Text.isHexDigit c)
    (hrest : Text.startsIn Text.isHexDigit rest = false) :
    readAddress marker (digits ++ rest) =
      .ok ⟨⟨.address, some ('0' :: 'x' :: digits)⟩, '0' :: marker :: digits, rest⟩ := by
  simp [readAddress, Text.takeWhile_run hdigits hrest, Text.dropWhile_run hdigits hrest, hne]

private theorem readNumber_run {digits rest : Text} (hdigits : ∀ c ∈ digits, c.isDigit)
    (hrest : Text.startsIn Char.isAlphanum rest = false) :
    readNumber (digits ++ rest) = .ok ⟨⟨.integer .u64, some digits⟩, digits, rest⟩ := by
  have hstop : Text.startsIn Char.isDigit rest = false :=
    Text.startsIn_eq_false_of_imp (fun c hc => Text.isAlphanum_iff.mpr (.inr hc)) hrest
  simp [readNumber, Text.takeWhile_run hdigits hstop, Text.dropWhile_run hdigits hstop,
    Text.takeWhile_eq_nil_iff.mpr hrest]

private theorem readNumber_sized {width : Width} {digits rest : Text}
    (hdigits : ∀ c ∈ digits, c.isDigit) (hrest : Text.startsIn Char.isAlphanum rest = false) :
    readNumber (digits ++ (width.label ++ rest)) =
      .ok ⟨⟨.integer width, some digits⟩, digits ++ width.label, rest⟩ := by
  obtain ⟨tail, hu, hlabel⟩ := width.label_shape
  have hstop : Text.startsIn Char.isDigit (width.label ++ rest) = false := by
    rw [hu]
    rfl
  have hne : width.label ≠ [] := by simp [hu]
  simp [readNumber, Text.takeWhile_run hdigits hstop, Text.dropWhile_run hdigits hstop,
    Text.takeWhile_run hlabel hrest, Text.dropWhile_run hlabel hrest,
    Width.ofLabel?_eq_some_iff.mpr rfl, hne]

private theorem readBytes_run {opener : Char} {isBody : Char → Bool} {digits : Text → Text}
    {body rest : Text} (hbody : ∀ c ∈ body, isBody c ∧ c ≠ '"') :
    readBytes opener isBody digits (body ++ '"' :: rest) =
      .ok ⟨⟨.bytes, some (digits body)⟩, opener :: '"' :: (body ++ ['"']), rest⟩ := by
  have hin : ∀ c ∈ body, (c != '"' && isBody c) = true := fun c hc => by
    simpa [and_comm] using hbody c hc
  have hstop : Text.startsIn (fun c => c != '"' && isBody c) ('"' :: rest) = false := by simp
  simp [readBytes, Text.takeWhile_run hin hstop, Text.dropWhile_run hin hstop]

private theorem readBlanks_run {word rest : Text} (hword : ∀ c ∈ word, Text.isBlank c)
    (hrest : Text.startsIn Text.isBlank rest = false) :
    readBlanks (word ++ rest) = .ok ⟨⟨.whitespace, some word⟩, word, rest⟩ := by
  simp [readBlanks, Text.takeWhile_run hword hrest, Text.dropWhile_run hword hrest]

private theorem readWord_run {word rest : Text} (hword : ∀ c ∈ word, Text.isNameChar c)
    (hrest : Text.startsIn Text.isNameChar rest = false) :
    readWord (word ++ rest) = .ok ⟨Token.ofWord word, word, rest⟩ := by
  simp [readWord, Text.takeWhile_run hword hrest, Text.dropWhile_run hword hrest]

private theorem read_asciiBytes : read ('b' :: '"' :: s) =
    readBytes 'b' Text.isAscii (fun body => Text.hexOfBytes (Text.encodeUtf8 body)) s := rfl

private theorem read_hexBytes : read ('x' :: '"' :: s) = readBytes 'x' Text.isHexDigit id s := rfl

/-- A text that starts with no mark, no address marker and no opening of a byte string goes by the
class of its first character. -/
private theorem read_cons {c : Char} (hmark : c ≠ '<' ∧ c ≠ '>' ∧ c ≠ ',' ∧ c ≠ ':')
    (haddress : c = '0' → Text.startsIn (fun d => d == 'x' || d == 'X') s = false)
    (hbytes : c = 'b' ∨ c = 'x' → Text.startsIn (· == '"') s = false) :
    read (c :: s) =
      if c.isDigit then readNumber (c :: s)
      else if Text.isBlank c then readBlanks (c :: s)
      else if c.isAlpha then readWord (c :: s)
      else .error (.unrecognized, 0) := by
  -- every pattern but the last asks for one of the excluded characters
  unfold read
  split <;> simp_all

/-- A digit that does not open an address starts a number. -/
private theorem read_digit {c : Char} (hc : c.isDigit)
    (hs : Text.startsIn (fun d => d == 'x' || d == 'X') s = false) :
    read (c :: s) = readNumber (c :: s) := by
  rw [read_cons ?_ (fun _ => hs) ?_, if_pos hc]
  · refine ⟨?_, ?_, ?_, ?_⟩ <;> (rintro rfl; exact absurd hc (by decide))
  · rintro (rfl | rfl) <;> exact absurd hc (by decide)

private theorem read_blank {c : Char} (hc : Text.isBlank c) :
    read (c :: s) = readBlanks (c :: s) := by
  rcases Text.isBlank_iff.mp hc with rfl | rfl | rfl | rfl | rfl <;> rfl

/-- A letter that does not open a byte string starts a word. -/
theorem read_alpha {c : Char} (hc : c.isAlpha)
    (hs : c = 'b' ∨ c = 'x' → Text.startsIn (· == '"') s = false) :
    read (c :: s) = readWord (c :: s) := by
  have hcode := Text.isAlpha_iff.mp hc
  have hdigit : ¬ c.isDigit := fun hd => by
    simp only [Char.isDigit_iff_toNat, Char.reduceToNat] at hd
    omega
  have hblank : ¬ Text.isBlank c := fun hb => by
    rcases Text.isBlank_iff.mp hb with rfl | rfl | rfl | rfl | rfl <;> exact absurd hc (by decide)
  rw [read_cons ?_ ?_ hs, if_neg hdigit, if_neg hblank, if_pos hc]
  · refine ⟨?_, ?_, ?_, ?_⟩ <;> (rintro rfl; exact absurd hc (by decide))
  · rintro rfl
    exact absurd hc (by decide)

/-- A number is read where no letter or digit follows it. -/
private theorem read_of_digits {digits tail : Text} (hne : digits ≠ [])
    (hdigits : ∀ c ∈ digits, c.isDigit)
    (htail : Text.startsIn (fun d => d == 'x' || d == 'X') tail = false) :
    read (digits ++ tail) = readNumber (digits ++ tail) := by
  cases digits with
  | nil => exact absurd rfl hne
  | cons c digits =>
    refine read_digit (hdigits c List.mem_cons_self) ?_
    cases digits with
    | nil => exact htail
    | cons d digits =>
      have hd : d.isDigit := hdigits d (by simp)
      refine Bool.or_eq_false_iff.mpr ⟨?_, ?_⟩ <;>
        (rw [beq_eq_false_iff_ne]; rintro rfl; exact absurd hd (by decide))

/-- A word is read where neither a letter, a digit or an underscore nor, behind `b` or `x`, a quote
follows it. -/
private theorem read_of_word {c : Char} {word tail : Text} (hc : c.isAlpha)
    (hword : ∀ d ∈ word, Text.isNameChar d) (htail : Text.startsIn Text.isNameChar tail = false)
    (hquote : c :: word = ['b'] ∨ c :: word = ['x'] → Text.startsIn (· == '"') tail = false) :
    read (c :: word ++ tail) = .ok ⟨Token.ofWord (c :: word), c :: word, tail⟩ := by
  have hall : ∀ d ∈ c :: word, Text.isNameChar d := by
    rintro d (_ | ⟨_, hd⟩)
    · exact Text.isNameChar_iff.mpr (.inr (.inl hc))
    · exact hword d hd
  rw [← readWord_run hall htail]
  refine read_alpha hc fun hbx => ?_
  cases word with
  | nil => exact hquote (by simpa using hbx)
  | cons d word =>
    refine beq_eq_false_iff_ne.mpr ?_
    rintro rfl
    exact absurd (hword '"' List.mem_cons_self) (by decide)

/-- **Completeness of the lexer**: a word is read if it spells a token and ends where no character
that would have prolonged it follows. Only `b` and `x` must not stand before a quote. -/
theorem read_of_spells {token : Token} {word tail : Text} (h : token.Spells word)
    (htail : Text.startsIn token.kind.continues tail = false)
    (hquote : word = ['b'] ∨ word = ['x'] → Text.startsIn (· == '"') tail = false) :
    read (word ++ tail) = .ok ⟨token, word, tail⟩ := by
  cases h with
  | lt | gt | comma | colonColon => rfl
  | address hmarker hne hdigits =>
    rcases hmarker with rfl | rfl <;> exact readAddress_run hne hdigits htail
  | number hne hdigits =>
    rw [read_of_digits hne hdigits, readNumber_run hdigits htail]
    refine Text.startsIn_eq_false_of_imp (fun c hc => ?_) htail
    rcases Bool.or_eq_true_iff.mp hc with hc | hc <;> (rw [beq_iff_eq.mp hc]; rfl)
  | @sizedNumber width digits hne hdigits =>
    rw [List.append_assoc, read_of_digits hne hdigits, readNumber_sized hdigits htail]
    obtain ⟨rest, hu, -⟩ := width.label_shape
    rw [hu]
    rfl
  | @asciiBytes body hbody =>
    rw [← Text.hexOfBytes_encodeUtf8 fun c hc => (hbody c hc).1]
    simp only [List.cons_append, List.append_assoc, List.nil_append]
    rw [read_asciiBytes, readBytes_run hbody]
  | @hexBytes body hbody =>
    have hin : ∀ c ∈ body, Text.isHexDigit c ∧ c ≠ '"' := fun c hc =>
      ⟨hbody c hc, by rintro rfl; exact absurd (hbody _ hc) (by decide)⟩
    simp only [List.cons_append, List.append_assoc, List.nil_append]
    rw [read_hexBytes, readBytes_run hin, id]
  | blanks hne hword =>
    cases word with
    | nil => exact absurd rfl hne
    | cons c word =>
      rw [← readBlanks_run hword htail]
      exact read_blank (hword c List.mem_cons_self)
  | keyword k =>
    obtain ⟨c, rest, hk, hc, hrest⟩ := k.spelling_shape
    have hword : Token.ofWord (c :: rest) = ⟨.keyword k, none⟩ := by
      rw [← hk, Token.ofWord, Keyword.ofSpelling?_spelling]
    rw [hk] at hquote ⊢
    rw [read_of_word hc hrest htail hquote, hword]
  | @name c rest hc hrest hk =>
    rw [read_of_word hc hrest htail hquote, Token.ofWord_eq_name_iff.mpr ⟨rfl, hk⟩]

/-- Before a quote, neither `b` nor `x` is read as a word. -/
theorem startsIn_quote_of_read (h : read s = .ok lexeme)
    (hword : lexeme.spelling = ['b'] ∨ lexeme.spelling = ['x']) :
    Text.startsIn (· == '"') lexeme.rest = false := by
  have htext := (startsText_of_read h).text_eq
  rw [Bool.eq_false_iff]
  intro hquote
  obtain ⟨c, tail, htail, hc⟩ := Text.exists_cons_of_startsIn hquote
  obtain rfl := beq_iff_eq.mp hc
  -- the text opens a byte string, whose spelling has at least three characters
  have hshape : ∃ opener body, lexeme.spelling = opener :: '"' :: (body ++ ['"']) := by
    rcases hword with hword | hword <;> rw [hword, htail] at htext <;> subst htext
    · obtain ⟨body, rest, -, -, rfl⟩ := eq_of_readBytes (read_asciiBytes.symm.trans h)
      exact ⟨_, body, rfl⟩
    · obtain ⟨body, rest, -, -, rfl⟩ := eq_of_readBytes (read_hexBytes.symm.trans h)
      exact ⟨_, body, rfl⟩
  obtain ⟨opener, body, hshape⟩ := hshape
  rcases hword with hword | hword <;> simp [hword] at hshape

/-- **What the lexer reads**: exactly the lexemes that stand at the front of the text, except that
before a quote `b` and `x` open a byte string. -/
theorem read_eq_ok_iff : read s = .ok lexeme ↔ lexeme.StartsText s ∧
    (lexeme.spelling = ['b'] ∨ lexeme.spelling = ['x'] →
      Text.startsIn (· == '"') lexeme.rest = false) := by
  constructor
  · exact fun h => ⟨startsText_of_read h, startsIn_quote_of_read h⟩
  · rintro ⟨⟨rfl, hspells, hmaximal⟩, hquote⟩
    exact read_of_spells hspells hmaximal hquote

/-- Reading a lexeme leaves less. -/
theorem length_rest_lt (h : read s = .ok lexeme) : lexeme.rest.length < s.length := by
  obtain ⟨htext, hspells, -⟩ := startsText_of_read h
  have hpos := List.length_pos_iff.mpr hspells.ne_nil
  rw [← htext, List.length_append]
  omega

end MoveText.Lexeme
