import MoveText.Proofs.Text.Run
import MoveText.Token.Lexeme

/-!
# Spellings of tokens

`Token.Spells` is the lexical grammar: which words are spellings of which tokens. A token may have
many spellings (`0xab` and `0Xab`, `7` and `7u64`, `b"A"` and `x"41"`), and a word may continue
another, so a lexer has to choose. `TokenKind.continues` names the characters that would have
prolonged a spelling, and `Lexeme.StartsText` says that a lexeme stands at the front of a text and
ends where no such character follows.

`Lexeme.read_eq_ok_iff` is the main statement: the lexer gives a lexeme exactly if it stands at the
front of the text in this sense, so at most one does. Of two spellings of a token one may be a part
of the other at its front, but only for numbers of 64 bits, with the width and without
(`Token.Spells.eq_nil_or_of_append`).
-/

namespace MoveText

namespace Keyword

/-- Each keyword is found by its spelling. -/
theorem ofSpelling?_spelling (k : Keyword) : ofSpelling? k.spelling = some k := by
  rcases k with (_ | _) | _ | (_ | _) <;> rfl

theorem ofSpelling?_eq_some_iff {s : Text} {k : Keyword} :
    ofSpelling? s = some k ↔ k.spelling = s := by
  constructor
  · intro h
    simpa using List.find?_some h
  · rintro rfl
    exact ofSpelling?_spelling k

theorem ofSpelling?_eq_none_iff {s : Text} :
    ofSpelling? s = none ↔ ∀ k : Keyword, k.spelling ≠ s := by
  rw [Option.eq_none_iff_forall_ne_some]
  exact forall_congr' fun k => not_congr ofSpelling?_eq_some_iff

/-- A keyword is a letter and letters, digits and underscores after it. -/
theorem spelling_shape (k : Keyword) :
    ∃ c rest, k.spelling = c :: rest ∧ c.isAlpha ∧ ∀ d ∈ rest, Text.isNameChar d := by
  rcases k with (_ | _) | _ | (_ | _) <;>
    exact ⟨_, _, rfl, by decide, List.all_eq_true.mp (by decide)⟩

end Keyword

namespace Width

theorem ofLabel?_eq_some_iff {s : Text} {w : Width} : ofLabel? s = some w ↔ w.label = s := by
  constructor
  · intro h
    simpa using List.find?_some h
  · rintro rfl
    cases w <;> rfl

/-- The name of a width is a `u` and digits. -/
theorem label_shape (w : Width) : ∃ rest, w.label = 'u' :: rest ∧ ∀ c ∈ w.label, c.isAlphanum := by
  cases w <;> exact ⟨_, rfl, List.all_eq_true.mp (by decide)⟩

end Width

namespace Text

/-- Two small digits for the code of each character. -/
def hexOfCodes (s : Text) : Text :=
  s.flatMap fun c => [Nat.digitChar (c.toNat / 16), Nat.digitChar (c.toNat % 16)]

/-- A character of seven bits is its own code in binary form. -/
theorem hexOfBytes_encodeUtf8 {s : Text} (hs : ∀ c ∈ s, isAscii c) :
    hexOfBytes (encodeUtf8 s) = hexOfCodes s := by
  induction s with
  | nil => rfl
  | cons c s ih =>
    have hc : c.toNat < 128 := isAscii_iff.mp (hs c List.mem_cons_self)
    have hbyte : encodeUtf8Char c = [UInt8.ofNat c.toNat] := if_pos hc
    have hval : (UInt8.ofNat c.toNat).toNat = c.toNat :=
      (UInt8.toNat_ofNat' ..).trans (Nat.mod_eq_of_lt (by omega))
    have htail := ih fun d hd => hs d (List.mem_cons_of_mem c hd)
    simp only [encodeUtf8, hexOfBytes, hexOfCodes, List.flatMap_cons, hbyte] at htail ⊢
    simp only [List.cons_append, List.nil_append, List.flatMap_cons, hexOfByte, hval, htail]

end Text

/-! ### The lexical grammar -/

/-- **The lexical grammar**: the words that spell a token. -/
inductive Token.Spells : Token → Text → Prop
  | lt : Spells .lt ['<']
  | gt : Spells .gt ['>']
  | comma : Spells .comma [',']
  | colonColon : Spells .colonColon [':', ':']
  | address {marker : Char} {digits : Text} (hmarker : marker = 'x' ∨ marker = 'X')
      (hne : digits ≠ []) (hdigits : ∀ c ∈ digits, Text.isHexDigit c) :
      Spells ⟨.address, some ('0' :: 'x' :: digits)⟩ ('0' :: marker :: digits)
  | number {digits : Text} (hne : digits ≠ []) (hdigits : ∀ c ∈ digits, c.isDigit) :
      Spells ⟨.integer .u64, some digits⟩ digits
  | sizedNumber {width : Width} {digits : Text} (hne : digits ≠ [])
      (hdigits : ∀ c ∈ digits, c.isDigit) :
      Spells ⟨.integer width, some digits⟩ (digits ++ width.label)
  | asciiBytes {body : Text} (hbody : ∀ c ∈ body, Text.isAscii c ∧ c ≠ '"') :
      Spells ⟨.bytes, some (Text.hexOfCodes body)⟩ ('b' :: '"' :: (body ++ ['"']))
  | hexBytes {body : Text} (hbody : ∀ c ∈ body, Text.isHexDigit c) :
      Spells ⟨.bytes, some body⟩ ('x' :: '"' :: (body ++ ['"']))
  | blanks {word : Text} (hne : word ≠ []) (hword : ∀ c ∈ word, Text.isBlank c) :
      Spells ⟨.whitespace, some word⟩ word
  | keyword (k : Keyword) : Spells ⟨.keyword k, none⟩ k.spelling
  | name {c : Char} {rest : Text} (hc : c.isAlpha) (hrest : ∀ d ∈ rest, Text.isNameChar d)
      (hk : ∀ k : Keyword, k.spelling ≠ c :: rest) : Spells ⟨.name, some (c :: rest)⟩ (c :: rest)

/-- The characters that would have prolonged a spelling of a token of this kind. -/
def TokenKind.continues : TokenKind → Char → Bool
  | whitespace => Text.isBlank
  | name | keyword _ => Text.isNameChar
  | address => Text.isHexDigit
  | integer _ => Char.isAlphanum
  | lt | gt | comma | colonColon | bytes | eof => fun _ => false

/-- A lexeme stands at the front of a text: its token is spelled there, and no character that would
have prolonged the spelling follows it. -/
structure Lexeme.StartsText (lexeme : Lexeme) (s : Text) : Prop where
  text_eq : lexeme.spelling ++ lexeme.rest = s
  spells : lexeme.token.Spells lexeme.spelling
  maximal : Text.startsIn lexeme.token.kind.continues lexeme.rest = false

namespace Token

/-- A keyword or a name is spelled by its word. -/
theorem spells_ofWord {c : Char} {rest : Text} (hc : c.isAlpha)
    (hrest : ∀ d ∈ rest, Text.isNameChar d) : (ofWord (c :: rest)).Spells (c :: rest) := by
  rw [ofWord]
  split
  · next k hk =>
    rw [← Keyword.ofSpelling?_eq_some_iff.mp hk]
    exact .keyword k
  · next hk => exact .name hc hrest (Keyword.ofSpelling?_eq_none_iff.mp hk)

/-- A word is a name, which it is itself, exactly if it is no keyword. -/
theorem ofWord_eq_name_iff {word s : Text} :
    ofWord word = ⟨.name, some s⟩ ↔ word = s ∧ ∀ k : Keyword, k.spelling ≠ word := by
  rw [← Keyword.ofSpelling?_eq_none_iff, ofWord]
  cases hk : Keyword.ofSpelling? word with
  | none => simp
  | some k => simp

theorem continues_ofWord (word : Text) : (ofWord word).kind.continues = Text.isNameChar := by
  rw [ofWord]
  split <;> rfl

namespace Spells

variable {token : Token} {word : Text}

/-- A spelling is never empty. -/
theorem ne_nil (h : token.Spells word) : word ≠ [] := by
  cases h with
  | number hne => exact hne
  | sizedNumber hne => simp [hne]
  | blanks hne => exact hne
  | keyword k =>
    obtain ⟨c, rest, hk, -⟩ := k.spelling_shape
    simp [hk]
  | _ => simp

/-- White space is spelled with white space only. -/
theorem isBlank_of_isWhitespace (h : token.Spells word) (hwhite : token.isWhitespace) :
    ∀ c ∈ word, Text.isBlank c := by
  cases h with
  | blanks _ hword => exact hword
  | _ => cases hwhite

/-- Only byte strings, and white space itself, hold white space. -/
theorem isBlank_eq_false (h : token.Spells word) (hwhite : token.kind ≠ .whitespace)
    (hbytes : token.kind ≠ .bytes) : ∀ c ∈ word, Text.isBlank c = false := by
  have hname : ∀ {s : Text}, (∀ c ∈ s, Text.isNameChar c) → ∀ c ∈ s, Text.isBlank c = false :=
    fun hs c hc => Text.isBlank_of_isNameChar (hs c hc)
  have hdigit : ∀ {c : Char}, c.isDigit → Text.isNameChar c := fun hc =>
    Text.isNameChar_iff.mpr (.inr (.inr hc))
  have halpha : ∀ {c : Char}, c.isAlpha → Text.isNameChar c := fun hc =>
    Text.isNameChar_iff.mpr (.inr (.inl hc))
  cases h with
  | lt | gt | comma | colonColon => simp [Text.isBlank]
  | @address marker digits hmarker hne hdigits =>
    refine hname (List.forall_mem_cons.mpr ⟨by decide, List.forall_mem_cons.mpr ⟨?_, ?_⟩⟩)
    · rcases hmarker with rfl | rfl <;> decide
    · exact fun c hc => Text.isNameChar_of_isHexDigit (hdigits c hc)
  | number hne hdigits => exact hname fun c hc => hdigit (hdigits c hc)
  | @sizedNumber width digits hne hdigits =>
    obtain ⟨-, -, hlabel⟩ := width.label_shape
    refine hname (List.forall_mem_append.mpr ⟨fun c hc => hdigit (hdigits c hc), fun c hc => ?_⟩)
    exact (Text.isAlphanum_iff.mp (hlabel c hc)).elim halpha hdigit
  | asciiBytes | hexBytes => exact absurd rfl hbytes
  | blanks => exact absurd rfl hwhite
  | keyword k =>
    obtain ⟨c, rest, hk, hc, hrest⟩ := k.spelling_shape
    rw [hk]
    exact hname (List.forall_mem_cons.mpr ⟨halpha hc, hrest⟩)
  | name hc hrest => exact hname (List.forall_mem_cons.mpr ⟨halpha hc, hrest⟩)

/-- Only white space ends with white space. -/
theorem startsIn_isBlank_reverse (h : token.Spells word) (hwhite : token.kind ≠ .whitespace) :
    Text.startsIn Text.isBlank word.reverse = false := by
  by_cases hbytes : token.kind = .bytes
  · cases h with
    | asciiBytes | hexBytes => simp [Text.isBlank]
    | _ => cases hbytes
  · cases hreverse : word.reverse with
    | nil => rfl
    | cons c rest =>
      exact h.isBlank_eq_false hwhite hbytes c (List.mem_reverse.mp (by simp [hreverse]))

/-! ### Two spellings of one token -/

variable {more : Text}

/-- A byte string has quotes behind its opening and at its end only. -/
private theorem exists_body {value : Option Text} (h : Spells ⟨.bytes, value⟩ word) :
    ∃ opener body, word = opener :: '"' :: (body ++ ['"']) ∧ ∀ c ∈ body, c != '"' := by
  cases h with
  | asciiBytes hbody => exact ⟨_, _, rfl, fun c hc => bne_iff_ne.mpr (hbody c hc).2⟩
  | hexBytes hbody =>
    refine ⟨_, _, rfl, fun c hc => bne_iff_ne.mpr ?_⟩
    rintro rfl
    exact absurd (hbody _ hc) (by decide)

/-- No byte string is a part of another at its front. -/
private theorem eq_nil_of_bytes {value value' : Option Text} (h : Spells ⟨.bytes, value⟩ word)
    (h' : Spells ⟨.bytes, value'⟩ (word ++ more)) : more = [] := by
  obtain ⟨opener, body, rfl, hbody⟩ := h.exists_body
  obtain ⟨opener', body', hwhole, hbody'⟩ := h'.exists_body
  have hrest : body ++ '"' :: more = body' ++ ['"'] := by
    simpa using (List.cons.inj hwhole).2
  have hquote : ∀ {rest : Text}, Text.startsIn (· != '"') ('"' :: rest) = false := rfl
  have hdrop := congrArg (List.dropWhile (· != '"')) hrest
  rw [Text.dropWhile_run hbody hquote, Text.dropWhile_run hbody' hquote] at hdrop
  exact (List.cons.inj hdrop).2

/-- **A part of a spelling** at its front that spells the same token is all of it, unless the token
is a number of 64 bits and the part lacks just the width. -/
theorem eq_nil_or_of_append (h : token.Spells word) (h' : token.Spells (word ++ more)) :
    more = [] ∨ token.kind = .integer .u64 ∧ more = Width.u64.label := by
  by_cases hbytes : token.kind = .bytes
  · obtain ⟨kind, value⟩ := token
    subst hbytes
    exact .inl (h.eq_nil_of_bytes h')
  generalize hwhole : word ++ more = whole at h'
  -- but for numbers, the token tells how long its spellings are
  have hshort : word.length = whole.length → more = [] := by
    intro hlength
    have := congrArg List.length hwhole
    rw [List.length_append] at this
    exact List.length_eq_zero_iff.mp (by omega)
  cases h with
  | number =>
    cases h' with
    | number => exact .inl (hshort rfl)
    | sizedNumber => exact .inr ⟨rfl, List.append_cancel_left hwhole⟩
  | sizedNumber =>
    cases h' with
    | number =>
      have := congrArg List.length hwhole
      simp [Width.label] at this
    | sizedNumber => exact .inl (hshort rfl)
  | asciiBytes | hexBytes => exact absurd rfl hbytes
  | _ =>
    cases h'
    exact .inl (hshort rfl)

end Spells

end Token

end MoveText
