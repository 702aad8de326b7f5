import MoveText.Proofs.Token.Lexeme

/-!
# Cutting a text into tokens

A cut of a text is a list of pieces, tokens with their spellings, that fill the text from its start
to its end, where no piece is followed by a character that would have prolonged it. `Text.Cut` says
nothing about how a cut is found. Where two pieces could start alike, as the name `b` and the byte
string `b"41"`, the rest of the text settles which one it is: no piece starts with a quote.

`Token.ofText_computes_cut` is the main statement: the tokens of a text are those of its one cut,
and a text without a cut is turned down with a lexical rejection. `Lexeme.text_induction` goes
through a text lexeme by lexeme, as the lexer does.
-/

namespace MoveText

/-- **A cut** of a text into pieces, each of which is a token with its spelling. -/
inductive Text.Cut : Text → List (Token × Text) → Prop
  | nil : Cut [] []
  | cons {s : Text} {lexeme : Lexeme} {pieces : List (Token × Text)}
      (front : lexeme.StartsText s) (tail : Cut lexeme.rest pieces) :
      Cut s ((lexeme.token, lexeme.spelling) :: pieces)

/-- A spelling starts with a letter, a digit or a mark, or else it is white space. -/
private theorem Token.Spells.startsIn_eq_false {token : Token} {word : Text} (h : token.Spells word)
    {p : Char → Bool} (hp : ∀ c, p c → ¬ c.isAlphanum ∧ c ∉ ['<', '>', ',', ':'])
    (hblank : token.isWhitespace → ∀ c, p c → ¬ Text.isBlank c) : Text.startsIn p word = false := by
  have hhead : ∀ {q : Char → Bool} {w : Text}, (∀ c, q c → ¬ p c) → (∀ c ∈ w, q c) →
      Text.startsIn p w = false := by
    intro q w hq hw
    cases w with
    | nil => rfl
    | cons c w => exact Bool.eq_false_iff.mpr (hq c (hw c List.mem_cons_self))
  have hdigit : ∀ c : Char, c.isDigit → ¬ p c := fun c hc hpc =>
    (hp c hpc).1 (Text.isAlphanum_iff.mpr (.inr hc))
  have halpha : ∀ {c : Char} {w : Text}, c.isAlpha → Text.startsIn p (c :: w) = false :=
    fun hc => Bool.eq_false_iff.mpr fun hpc => (hp _ hpc).1 (Text.isAlphanum_iff.mpr (.inl hc))
  have hmark : ∀ {c : Char} {w : Text}, c ∈ ['<', '>', ',', ':'] →
      Text.startsIn p (c :: w) = false :=
    fun hc => Bool.eq_false_iff.mpr fun hpc => (hp _ hpc).2 hc
  cases h with
  | lt | gt | comma | colonColon => exact hmark (by decide)
  | address => exact Bool.eq_false_iff.mpr (hdigit '0' rfl)
  | number hne hdigits => exact hhead hdigit hdigits
  | sizedNumber hne hdigits =>
    rw [Text.startsIn_append hne]
    exact hhead hdigit hdigits
  | asciiBytes | hexBytes => exact halpha (by decide)
  | blanks hne hword => exact hhead (fun c hc hpc => hblank rfl c hpc hc) hword
  | keyword k =>
    obtain ⟨c, rest, hk, hc, -⟩ := k.spelling_shape
    rw [hk]
    exact halpha hc
  | name hc => exact halpha hc

/-- No spelling starts with a quote. -/
private theorem Token.Spells.startsIn_quote {token : Token} {word : Text} (h : token.Spells word) :
    Text.startsIn (· == '"') word = false := by
  refine h.startsIn_eq_false (fun c hc => ?_) fun _ c hc => ?_ <;>
    · rw [beq_iff_eq.mp hc]
      decide

/-- Only white space starts with white space. -/
theorem Token.Spells.startsIn_isBlank {token : Token} {word : Text} (h : token.Spells word)
    (hkind : token.isWhitespace = false) : Text.startsIn Text.isBlank word = false := by
  refine h.startsIn_eq_false (fun c hc => ?_) fun hwhite => absurd hwhite (by simp [hkind])
  rcases Text.isBlank_iff.mp hc with rfl | rfl | rfl | rfl | rfl <;> decide

namespace Text.Cut

variable {s : Text} {pieces : List (Token × Text)}

/-- A text that can be cut does not start with a quote. -/
private theorem startsIn_quote (h : Cut s pieces) : startsIn (· == '"') s = false := by
  cases h with
  | nil => rfl
  | cons front tail =>
    rw [← front.text_eq, startsIn_append front.spells.ne_nil]
    exact front.spells.startsIn_quote

/-- The first piece of a cut is the lexeme that is read. -/
private theorem read_eq {lexeme : Lexeme} (front : lexeme.StartsText s)
    (tail : Cut lexeme.rest pieces) : Lexeme.read s = .ok lexeme :=
  Lexeme.read_eq_ok_iff.mpr ⟨front, fun _ => tail.startsIn_quote⟩

/-- **A text has at most one cut**: neither the tokens nor their spellings can be chosen. -/
theorem unique {pieces' : List (Token × Text)} (h : Cut s pieces) (h' : Cut s pieces') :
    pieces = pieces' := by
  induction h generalizing pieces' with
  | nil =>
    cases h' with
    | nil => rfl
    | cons front tail =>
      exact absurd (List.append_eq_nil_iff.mp front.text_eq).1 front.spells.ne_nil
  | cons front tail ih =>
    cases h' with
    | nil => exact absurd (List.append_eq_nil_iff.mp front.text_eq).1 front.spells.ne_nil
    | cons front' tail' =>
      -- both first pieces are what the lexer reads
      have hsame := Except.ok.inj ((read_eq front tail).symm.trans (read_eq front' tail'))
      subst hsame
      rw [ih tail']

/-- The spellings fill the text. -/
theorem flatten_eq (h : Cut s pieces) : (pieces.map Prod.snd).flatten = s := by
  induction h with
  | nil => rfl
  | cons front tail ih => rw [List.map_cons, List.flatten_cons, ih, front.text_eq]

/-- Each piece is a spelling of its token. -/
theorem spells_of_mem (h : Cut s pieces) {piece : Token × Text} (hp : piece ∈ pieces) :
    piece.1.Spells piece.2 := by
  induction h with
  | nil => cases hp
  | cons front tail ih =>
    rcases List.mem_cons.mp hp with rfl | hp
    · exact front.spells
    · exact ih hp

end Text.Cut

/-! ### The lexer as a recursion on lexemes -/

/-- Goes through a text lexeme by lexeme, up to its end or to where no lexeme can be read. -/
theorem Lexeme.text_induction {motive : Text → Prop} (nil : motive [])
    (stuck : ∀ s cause inner, s ≠ [] → Lexeme.read s = .error (cause, inner) → motive s)
    (lexeme : ∀ s lexeme, Lexeme.read s = .ok lexeme → motive lexeme.rest → motive s) (s : Text) :
    motive s := by
  induction hn : s.length using Nat.strongRecOn generalizing s with
  | _ n ih =>
    subst hn
    by_cases hs : s = []
    · rw [hs]
      exact nil
    · cases hread : Lexeme.read s with
      | error fault => exact stuck s fault.1 fault.2 hs hread
      | ok found => exact lexeme s found hread (ih _ (length_rest_lt hread) _ rfl)

namespace Token

/-- The tokens of a text that starts at an offset. -/
def ofTextFrom (offset : Nat) (s : Text) : Except Rejection (List Token) :=
  ofTextWithin s.length offset s

/-- As many rounds as there are characters are enough. -/
private theorem ofTextWithin_eq {rounds rounds' offset : Nat} {s : Text} (h : s.length ≤ rounds)
    (h' : s.length ≤ rounds') : ofTextWithin rounds offset s = ofTextWithin rounds' offset s := by
  induction rounds generalizing rounds' offset s with
  | zero =>
    obtain rfl := List.length_eq_zero_iff.mp (Nat.le_zero.mp h)
    cases rounds' <;> rfl
  | succ rounds ih =>
    cases s with
    | nil => cases rounds' <;> rfl
    | cons c s =>
      obtain ⟨rounds', rfl⟩ : ∃ n, rounds' = n + 1 :=
        Nat.exists_eq_add_one_of_ne_zero (by rintro rfl; simp at h')
      rw [ofTextWithin, ofTextWithin]
      cases hread : Lexeme.read (c :: s) with
      | error fault => rfl
      | ok lexeme =>
        -- each count loses one round, and the rest of the text at least one character
        have hlt := Lexeme.length_rest_lt hread
        simp only [List.length_cons] at h h' hlt
        have hrest : ofTextWithin rounds (offset + Text.units lexeme.spelling) lexeme.rest =
            ofTextWithin rounds' (offset + Text.units lexeme.spelling) lexeme.rest :=
          ih (by omega) (by omega)
        simp only [hrest]

theorem ofText_eq (s : Text) : ofText s = ofTextFrom 0 s := rfl

/-- After a lexeme, the lexer goes on behind it. -/
theorem ofTextFrom_of_read {offset : Nat} {s : Text} {lexeme : Lexeme}
    (h : Lexeme.read s = .ok lexeme) :
    ofTextFrom offset s =
      (ofTextFrom (offset + Text.units lexeme.spelling) lexeme.rest).map (lexeme.token :: ·) := by
  have hlt := Lexeme.length_rest_lt h
  cases s with
  | nil => cases h
  | cons c s =>
    rw [ofTextFrom, List.length_cons, ofTextWithin, h, ofTextFrom]
    simp only []
    rw [ofTextWithin_eq (Nat.le_of_lt_succ hlt) (Nat.le_refl _)]
    split <;> simp_all [Except.map]

/-- Where no lexeme can be read, the lexer stops. -/
theorem ofTextFrom_of_read_error {offset inner : Nat} {s : Text} {cause : LexicalCause}
    (hs : s ≠ []) (h : Lexeme.read s = .error (cause, inner)) :
    ofTextFrom offset s = .error (.lexical cause (offset + inner : Nat)) := by
  cases s with
  | nil => exact absurd rfl hs
  | cons c s => rw [ofTextFrom, List.length_cons, ofTextWithin, h]

/-- The lexer stops for lexical causes only. -/
private theorem lexical_of_ofTextFrom {offset : Nat} {s : Text} {rejection : Rejection}
    (h : ofTextFrom offset s = .error rejection) :
    ∃ cause place, rejection = .lexical cause place := by
  induction s using Lexeme.text_induction generalizing offset with
  | nil => cases h
  | stuck s cause inner hs hread =>
    rw [ofTextFrom_of_read_error hs hread] at h
    exact ⟨_, _, (Except.error.inj h).symm⟩
  | lexeme s lexeme hread ih =>
    rw [ofTextFrom_of_read hread] at h
    cases htail : ofTextFrom (offset + Text.units lexeme.spelling) lexeme.rest with
    | error r =>
      rw [htail] at h
      cases h
      exact ih htail
    | ok tokens => simp [htail, Except.map] at h

/-- A text of which the grammar sees nothing is turned down for a lexical cause. -/
theorem lexical_of_wordsOfText {s : Text} {rejection : Rejection}
    (h : wordsOfText s = .error rejection) : ∃ cause place, rejection = .lexical cause place := by
  rw [wordsOfText] at h
  cases hs : ofText s with
  | error found =>
    rw [hs] at h
    obtain rfl := Except.error.inj h
    exact lexical_of_ofTextFrom hs
  | ok tokens => simp [hs] at h

/-- The tokens of a text are those of its cut. -/
theorem ofTextFrom_eq_ok_iff {offset : Nat} {s : Text} {tokens : List Token} :
    ofTextFrom offset s = .ok tokens ↔
      ∃ pieces, Text.Cut s pieces ∧ pieces.map Prod.fst = tokens := by
  constructor
  · intro h
    induction s using Lexeme.text_induction generalizing offset tokens with
    | nil =>
      cases h
      exact ⟨[], .nil, rfl⟩
    | stuck s cause inner hs hread =>
      rw [ofTextFrom_of_read_error hs hread] at h
      cases h
    | lexeme s lexeme hread ih =>
      rw [ofTextFrom_of_read hread] at h
      cases htail : ofTextFrom (offset + Text.units lexeme.spelling) lexeme.rest with
      | error r => simp [htail, Except.map] at h
      | ok others =>
        obtain ⟨pieces, hcut, rfl⟩ := ih htail
        rw [htail] at h
        cases h
        exact ⟨_, .cons (Lexeme.startsText_of_read hread) hcut, rfl⟩
  · rintro ⟨pieces, hcut, rfl⟩
    induction hcut generalizing offset with
    | nil => rfl
    | cons front tail ih =>
      rw [ofTextFrom_of_read (Text.Cut.read_eq front tail), ih]
      rfl

/-- **The lexer computes the cut of a text.** The tokens of a text are those of a cut of it; a text
has at most one cut, whose pieces are not empty and fill the text; and a text without a cut is
turned down with a lexical rejection. -/
theorem ofText_computes_cut (s : Text) :
    (∀ tokens, ofText s = .ok tokens ↔
      ∃ pieces, Text.Cut s pieces ∧ pieces.map Prod.fst = tokens) ∧
    (∀ pieces pieces', Text.Cut s pieces → Text.Cut s pieces' → pieces = pieces') ∧
    (∀ pieces, Text.Cut s pieces →
      (pieces.map Prod.snd).flatten = s ∧ ∀ piece ∈ pieces, piece.2 ≠ []) ∧
    ((¬ ∃ pieces, Text.Cut s pieces) →
      ∃ rejection, ofText s = .error rejection ∧ rejection.category = .lexical) := by
  refine ⟨fun tokens => ofTextFrom_eq_ok_iff, fun _ _ => Text.Cut.unique,
    fun pieces hcut => ⟨hcut.flatten_eq, fun piece hp => (hcut.spells_of_mem hp).ne_nil⟩,
    fun hnone => ?_⟩
  cases htokens : ofText s with
  | ok tokens =>
    obtain ⟨pieces, hcut, -⟩ := ofTextFrom_eq_ok_iff.mp htokens
    exact absurd ⟨pieces, hcut⟩ hnone
  | error rejection =>
    obtain ⟨cause, place, rfl⟩ := lexical_of_ofTextFrom htokens
    exact ⟨_, rfl, rfl⟩

end Token

end MoveText
