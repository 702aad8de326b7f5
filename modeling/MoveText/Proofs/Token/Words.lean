import MoveText.Identifier
import MoveText.Proofs.Token.Cut

/-!
# Reading a text piece by piece

The words of a text are its tokens but for white space. `Text.Gives` says what a piece of text
contributes to the words of any text in which it stands, provided no character of a certain class
follows it. Pieces are put together with `Text.Gives.append`, so the words of a text that is written
by a recursion are found by the same recursion, in both directions: a text has the words exactly if
the conditions of its pieces hold.
-/

namespace MoveText

/-! ### Identifiers -/

namespace Identifier

theorem isValid_cons_iff {c : Char} {rest : Text} :
    isValid (c :: rest) ↔
      (c.isAlpha ∨ c = '_' ∧ rest ≠ []) ∧ ∀ d ∈ rest, Text.isNameChar d := by
  simp [isValid]

/-- A letter, and letters, digits and underscores after it, but no keyword. -/
structure IsWord (s : Text) : Prop where
  letter : Text.startsIn Char.isAlpha s
  chars : ∀ c ∈ s, Text.isNameChar c
  noKeyword : ∀ k : Keyword, k.spelling ≠ s

/-- All characters of an identifier are letters, digits and underscores. -/
theorem isNameChar_of_isValid {s : Text} (hs : isValid s) : ∀ c ∈ s, Text.isNameChar c := by
  cases s with
  | nil => cases hs
  | cons c rest =>
    obtain ⟨hc, hrest⟩ := isValid_cons_iff.mp hs
    refine List.forall_mem_cons.mpr ⟨Text.isNameChar_iff.mpr ?_, hrest⟩
    exact hc.elim (fun h => .inr (.inl h)) fun h => .inl h.1

end Identifier

namespace Text

variable {s : Text} {words : List Token}

/-! ### Words -/

/-- The tokens of a text but for white space. -/
def HasWords (s : Text) (words : List Token) : Prop :=
  ∃ tokens, Token.ofText s = .ok tokens ∧ tokens.filter (fun t => !t.isWhitespace) = words

/-- The grammar sees the words of a text, and the end. -/
theorem HasWords.wordsOfText_eq (h : HasWords s words) :
    Token.wordsOfText s = .ok (words ++ [.eof]) := by
  obtain ⟨tokens, htokens, rfl⟩ := h
  rw [Token.wordsOfText, htokens]

/-- What the grammar sees of a text are its words, and the end. -/
theorem exists_hasWords_of_wordsOfText {tokens : List Token}
    (h : Token.wordsOfText s = .ok tokens) :
    ∃ words, HasWords s words ∧ tokens = words ++ [.eof] := by
  rw [Token.wordsOfText] at h
  cases hs : Token.ofText s with
  | error rejection => simp [hs] at h
  | ok found =>
    simp only [hs, Except.ok.injEq] at h
    exact ⟨_, ⟨found, hs, rfl⟩, h.symm⟩

theorem hasWords_nil : HasWords [] words ↔ words = [] := by
  constructor
  · rintro ⟨_, ⟨⟩, rfl⟩
    rfl
  · rintro rfl
    exact ⟨[], rfl, rfl⟩

/-- The words of a text are those of its first lexeme and of what follows it. -/
private theorem hasWords_iff_of_read {lexeme : Lexeme} (h : Lexeme.read s = .ok lexeme) :
    HasWords s words ↔ ∃ others, HasWords lexeme.rest others ∧
      words = [lexeme.token].filter (fun t => !t.isWhitespace) ++ others := by
  have hrest : ∀ offset tokens, Token.ofTextFrom offset lexeme.rest = .ok tokens ↔
      Token.ofText lexeme.rest = .ok tokens := fun offset tokens =>
    Token.ofTextFrom_eq_ok_iff.trans Token.ofTextFrom_eq_ok_iff.symm
  rw [HasWords, Token.ofText_eq, Token.ofTextFrom_of_read h]
  constructor
  · rintro ⟨tokens, htokens, rfl⟩
    cases htail : Token.ofTextFrom (0 + units lexeme.spelling) lexeme.rest with
    | error rejection =>
      rw [htail] at htokens
      cases htokens
    | ok others =>
      rw [htail] at htokens
      obtain rfl := Except.ok.inj htokens
      refine ⟨_, ⟨others, (hrest _ _).mp htail, rfl⟩, ?_⟩
      rw [← List.filter_append, List.singleton_append]
  · rintro ⟨_, ⟨others, hothers, rfl⟩, rfl⟩
    refine ⟨lexeme.token :: others, ?_, ?_⟩
    · rw [(hrest _ _).mpr hothers]
      rfl
    · rw [← List.filter_append, List.singleton_append]

/-- A text that starts with no lexeme has no words. -/
private theorem not_hasWords_of_read {cause : LexicalCause} {inner : Nat} (hs : s ≠ [])
    (h : Lexeme.read s = .error (cause, inner)) : ¬ HasWords s words := by
  rintro ⟨tokens, htokens, -⟩
  rw [Token.ofText_eq, Token.ofTextFrom_of_read_error hs h] at htokens
  cases htokens

/-- **A piece of text gives words**, under a condition: in every text that goes on behind it with no
character of the class `follow`, it contributes these words, and without the condition no such text
can be cut into tokens at all. -/
def Gives (s : Text) (follow : Char → Bool) (cond : Prop) (words : List Token) : Prop :=
  ∀ tail, startsIn follow tail = false → ∀ all,
    HasWords (s ++ tail) all ↔ cond ∧ ∃ others, HasWords tail others ∧ all = words ++ others

/-- A whole text has the words that it gives. -/
theorem Gives.hasWords_iff {follow : Char → Bool} {cond : Prop} {all : List Token}
    (h : Gives s follow cond words) : HasWords s all ↔ cond ∧ all = words := by
  have hall := h [] rfl all
  simpa [hasWords_nil] using hall

namespace Gives

variable {s' : Text} {words' : List Token} {follow follow' : Char → Bool} {cond cond' : Prop}

/-- Two pieces give their words one after the other, if the second keeps off from the first what
must not follow it. -/
theorem append (h : Gives s follow cond words) (h' : Gives s' follow' cond' words')
    (hfollow : ∀ tail, startsIn follow' tail = false → startsIn follow (s' ++ tail) = false) :
    Gives (s ++ s') follow' (cond ∧ cond') (words ++ words') := by
  intro tail htail all
  rw [List.append_assoc, h (s' ++ tail) (hfollow tail htail)]
  constructor
  · rintro ⟨hcond, mid, hmid, rfl⟩
    obtain ⟨hcond', others, hothers, rfl⟩ := (h' tail htail mid).mp hmid
    exact ⟨⟨hcond, hcond'⟩, others, hothers, (List.append_assoc ..).symm⟩
  · rintro ⟨⟨hcond, hcond'⟩, others, hothers, rfl⟩
    refine ⟨hcond, words' ++ others, ?_, List.append_assoc ..⟩
    exact (h' tail htail _).mpr ⟨hcond', others, hothers, rfl⟩

/-- A condition may be put in other words, and more characters kept off. -/
theorem congr (h : Gives s follow cond words) (hfollow : ∀ c, follow c → follow' c)
    (hcond : cond ↔ cond') : Gives s follow' cond' words := by
  intro tail htail all
  rw [← hcond]
  exact h tail (startsIn_eq_false_of_imp hfollow htail) all

end Gives

/-! ### Single words -/

/-- A spelling gives its token, unless a character follows that would prolong it. -/
theorem gives_of_spells {token : Token} {word : Text} {follow : Char → Bool}
    (h : token.Spells word) (hkind : token.isWhitespace = false)
    (hfollow : ∀ c, token.kind.continues c → follow c)
    (hquote : word = ['b'] ∨ word = ['x'] → follow '"') : Gives word follow True [token] := by
  intro tail htail all
  have hcontinues := startsIn_eq_false_of_imp hfollow htail
  have hnoquote : word = ['b'] ∨ word = ['x'] → startsIn (· == '"') tail = false := by
    intro hword
    refine startsIn_eq_false_of_imp (fun c hc => ?_) htail
    rw [beq_iff_eq.mp hc]
    exact hquote hword
  rw [hasWords_iff_of_read (Lexeme.read_of_spells h hcontinues hnoquote)]
  simp [hkind]

/-- White space gives nothing. -/
theorem gives_blanks {blanks : Text} (hblanks : ∀ c ∈ blanks, isBlank c) :
    Gives blanks isBlank True [] := by
  intro tail htail all
  by_cases hne : blanks = []
  · simp [hne]
  · have hread := Lexeme.read_of_spells (.blanks hne hblanks) htail fun hword => by
      rcases hword with rfl | rfl <;> exact absurd (hblanks _ List.mem_cons_self) (by decide)
    rw [hasWords_iff_of_read hread]
    simp [Token.isWhitespace]

/-- The characters that must not follow a word: those that would prolong it, and the quote, which
makes a byte string of `b` and `x`. -/
def gluesToWord (c : Char) : Bool := isNameChar c || c == '"'

theorem gives_keyword (k : Keyword) : Gives k.spelling gluesToWord True [⟨.keyword k, none⟩] :=
  gives_of_spells (.keyword k) rfl (fun _ hc => Bool.or_eq_true_iff.mpr (.inl hc)) fun _ => rfl

private theorem gives_comma : Gives [','] (fun _ => false) True [.comma] :=
  gives_of_spells .comma rfl (fun _ hc => hc) (by decide)

/-- One comma with any white space around it. -/
def IsSeparator (s : Text) : Prop :=
  ∃ before after, s = before ++ ',' :: after ∧ (∀ c ∈ before, isBlank c) ∧ ∀ c ∈ after, isBlank c

/-- A separator gives a comma, unless its white space goes on. -/
theorem IsSeparator.gives (h : IsSeparator s) : Gives s isBlank True [.comma] := by
  obtain ⟨before, after, heq, hbefore, hafter⟩ := h
  have hcomma := gives_comma.append (gives_blanks hafter) fun _ _ => startsIn_empty _
  have hall := (gives_blanks hbefore).append hcomma fun _ _ => rfl
  rw [heq]
  exact hall.congr (fun _ hc => hc) (by simp)

/-- A separator may follow a word. -/
theorem IsSeparator.startsIn (h : IsSeparator s) (tail : Text) :
    startsIn gluesToWord (s ++ tail) = false := by
  obtain ⟨before, after, heq, hbefore, -⟩ := h
  rw [heq]
  cases before with
  | nil => rfl
  | cons c before =>
    rcases isBlank_iff.mp (hbefore c List.mem_cons_self) with rfl | rfl | rfl | rfl | rfl <;> rfl

/-- **An identifier gives its word** if it starts with a letter, and cannot be read otherwise. -/
theorem gives_identifier (hs : Identifier.isValid s) :
    Gives s gluesToWord (startsIn Char.isAlpha s) [Token.ofWord s] := by
  cases s with
  | nil => cases hs
  | cons c rest =>
    obtain ⟨hc, hrest⟩ := Identifier.isValid_cons_iff.mp hs
    rcases hc with hc | ⟨rfl, -⟩
    · have hkind : (Token.ofWord (c :: rest)).isWhitespace = false := by
        rw [Token.ofWord]
        split <;> rfl
      have hcontinues : ∀ d, (Token.ofWord (c :: rest)).kind.continues d → gluesToWord d := by
        intro d hd
        rw [Token.continues_ofWord] at hd
        exact Bool.or_eq_true_iff.mpr (.inl hd)
      have hword := gives_of_spells (Token.spells_ofWord hc hrest) hkind hcontinues fun _ => rfl
      exact hword.congr (fun _ hd => hd) (iff_of_true trivial hc)
    · -- no lexeme starts with an underscore
      intro tail htail all
      have hread : Lexeme.read ('_' :: rest ++ tail) = .error (.unrecognized, 0) := rfl
      have hnone : ¬ HasWords ('_' :: rest ++ tail) all := not_hasWords_of_read (by simp) hread
      have hletter : ¬ startsIn Char.isAlpha ('_' :: rest) := by
        rw [startsIn_cons]
        decide
      exact iff_of_false hnone fun h => hletter h.1

end Text

end MoveText
