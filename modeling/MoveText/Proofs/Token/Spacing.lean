import MoveText.ForMathlib
import MoveText.Proofs.Token.Pieces

/-!
# White space between tokens

`Text.StandsBetween front back` says that the lexer, on its way through `front ++ back`, comes to
the place between the two: it takes `front` token by token, whatever becomes of `back`. White space
that is put in at such a place leaves the words before it, for what follows a token is white space
now and prolongs nothing, and the lexer then goes on with `back` as before, further along in the
text. So the words of the text are the same, and if it is turned down, the offset of the rejection
is larger by the white space (`Token.wordsOfText_insert`).

White space that is taken out may glue its neighbours together, but not if one of them is a mark or
is missing (`Text.Cut.erase`).
-/

namespace MoveText

/-- The rejection with its offset moved on by `width`, if it has one. -/
def Rejection.shift (width : Nat) : Rejection → Rejection
  | lexical cause offset => lexical cause (offset + width)
  | rejection => rejection

namespace Text

/-- **A place between tokens**: the lexer takes `front` token by token and then stands before
`back`. -/
inductive StandsBetween : Text → Text → Prop
  | start (back : Text) : StandsBetween [] back
  | lexeme {token : Token} {word front back : Text}
      (hread : Lexeme.read (word ++ (front ++ back)) = .ok ⟨token, word, front ++ back⟩)
      (hrest : StandsBetween front back) : StandsBetween (word ++ front) back

/-- A class that a text does not start in, and that holds no white space, is not what it starts in
behind white space put in somewhere. -/
private theorem startsIn_insert {p : Char → Bool} {front w back : Text} (hw : ∀ c ∈ w, p c = false)
    (h : startsIn p (front ++ back) = false) : startsIn p (front ++ (w ++ back)) = false := by
  cases front with
  | cons c front => exact h
  | nil =>
    cases w with
    | nil => exact h
    | cons c w => exact hw c List.mem_cons_self

/-- **White space may be taken out** at an end of the text, or where one of its neighbours is a
mark. -/
theorem Cut.erase {s : Text} {before after : List (Token × Text)} {run : Token × Text}
    (h : Cut s (before ++ run :: after))
    (hmark : before = [] ∨ after = [] ∨ (∃ last ∈ before.getLast?, last.1.kind.isMark) ∨
      ∃ next ∈ after.head?, next.1.kind.isMark) :
    Cut ((before ++ after).map Prod.snd).flatten (before ++ after) := by
  obtain ⟨-, hspells, hchain⟩ := cut_iff.mp h
  simp only [List.forall_mem_append, List.forall_mem_cons] at hspells
  obtain ⟨hbefore, -, hafter⟩ := hspells
  obtain ⟨hbefore', hafter', -⟩ := List.isChain_append.mp hchain
  refine cut_iff.mpr ⟨rfl, List.forall_mem_append.mpr ⟨hbefore, hafter⟩,
    List.isChain_append.mpr ⟨hbefore', (List.isChain_cons.mp hafter').2, ?_⟩⟩
  intro last hlast next hnext
  have hmarks : last.1.kind.isMark ∨ next.1.kind.isMark := by
    rcases hmark with rfl | rfl | ⟨_, hlast', hmark⟩ | ⟨_, hnext', hmark⟩
    · cases hlast
    · cases hnext
    · exact .inl (Option.mem_unique hlast' hlast ▸ hmark)
    · exact .inr (Option.mem_unique hnext' hnext ▸ hmark)
  exact keepsOff_of_isMark (hafter next (List.mem_of_mem_head? hnext)) hmarks

end Text

namespace Token

open Text

/-! ### Words from an offset on -/

/-- The words of a text that starts at an offset. -/
def wordsFrom (offset : Nat) (s : Text) : Except Rejection (List Token) :=
  (ofTextFrom offset s).map fun tokens => tokens.filter fun t => !t.isWhitespace

private theorem wordsOfText_eq (s : Text) : wordsOfText s = (wordsFrom 0 s).map (· ++ [eof]) := by
  rw [wordsOfText, wordsFrom, ofText_eq]
  cases ofTextFrom 0 s <;> rfl

private theorem wordsFrom_of_read {offset : Nat} {s word rest : Text} {token : Token}
    (h : Lexeme.read s = .ok ⟨token, word, rest⟩) :
    wordsFrom offset s = (wordsFrom (offset + units word) rest).map
      ([token].filter (fun t => !t.isWhitespace) ++ ·) := by
  rw [wordsFrom, ofTextFrom_of_read h, wordsFrom]
  cases ofTextFrom (offset + units word) rest with
  | error rejection => rfl
  | ok tokens => exact congrArg Except.ok (List.filter_append [token] tokens)

/-- A text further along has the same words, or it is turned down further along. -/
private theorem wordsFrom_add (offset width : Nat) (s : Text) :
    wordsFrom (offset + width) s = (wordsFrom offset s).mapError (Rejection.shift width) := by
  induction s using Lexeme.text_induction generalizing offset with
  | nil => rfl
  | stuck s cause inner hs hread =>
    rw [wordsFrom, wordsFrom, ofTextFrom_of_read_error hs hread, ofTextFrom_of_read_error hs hread]
    have hplace : ((offset + width + inner : Nat) : Int) = (offset + inner : Nat) + width := by
      omega
    simp only [Except.map, Except.mapError, Rejection.shift, hplace]
  | lexeme s lexeme hread ih =>
    rw [wordsFrom_of_read hread, wordsFrom_of_read hread, Nat.add_right_comm, ih]
    cases wordsFrom (offset + units lexeme.spelling) lexeme.rest <;> rfl

/-- White space at the front of a text only moves what follows it. -/
private theorem wordsFrom_blanks {offset : Nat} {w s : Text} (hw : ∀ c ∈ w, isBlank c) :
    wordsFrom offset (w ++ s) = wordsFrom (offset + units w) s := by
  -- the lexer takes all white space in one piece, that of `w` with what `s` starts with
  have hrun : ∀ {offset : Nat} {blanks rest : Text}, (∀ c ∈ blanks, isBlank c) →
      startsIn isBlank rest = false →
      wordsFrom offset (blanks ++ rest) = wordsFrom (offset + units blanks) rest := by
    intro offset blanks rest hblanks hrest
    by_cases hne : blanks = []
    · subst hne
      rfl
    · have hread := Lexeme.read_of_spells (.blanks hne hblanks) hrest fun hword => by
        rcases hword with rfl | rfl <;> exact absurd (hblanks _ List.mem_cons_self) (by decide)
      rw [wordsFrom_of_read hread]
      cases wordsFrom (offset + units blanks) rest <;> rfl
  have hblanks : ∀ c ∈ s.takeWhile isBlank, isBlank c := fun c => List.mem_takeWhile_imp
  have hrest := startsIn_dropWhile isBlank s
  rw [← List.takeWhile_append_dropWhile (p := isBlank) (l := s), ← List.append_assoc,
    hrun (List.forall_mem_append.mpr ⟨hw, hblanks⟩) hrest, hrun hblanks hrest, units_append,
    Nat.add_assoc]

/-- **Up to a place between tokens**, the words do not depend on white space that is put in there,
and behind it the lexer goes on as it would anywhere. -/
theorem exists_wordsFrom_insert {front back : Text} (h : StandsBetween front back) :
    ∃ words, ∀ offset w, (∀ c ∈ w, isBlank c) → wordsFrom offset (front ++ (w ++ back)) =
      (wordsFrom (offset + units front + units w) back).map (words ++ ·) := by
  induction h with
  | start back =>
    refine ⟨[], fun offset w hw => ?_⟩
    rw [List.nil_append, wordsFrom_blanks hw, units, Nat.add_zero]
    cases wordsFrom (offset + units w) back <;> rfl
  | @lexeme token word front back hread hrest ih =>
    obtain ⟨words, hwords⟩ := ih
    refine ⟨[token].filter (fun t => !t.isWhitespace) ++ words, fun offset w hw => ?_⟩
    have hstep : wordsFrom offset (word ++ (front ++ (w ++ back))) =
        (wordsFrom (offset + units word) (front ++ (w ++ back))).map
          ([token].filter (fun t => !t.isWhitespace) ++ ·) := by
      obtain ⟨-, hspells, hmaximal⟩ := Lexeme.startsText_of_read hread
      cases hwhite : token.isWhitespace with
      | true =>
        -- a piece of white space may go on in what is put in, so it is taken together with it
        rw [wordsFrom_blanks (hspells.isBlank_of_isWhitespace hwhite), List.filter_singleton]
        simp only [hwhite]
        cases wordsFrom (offset + units word) (front ++ (w ++ back)) <;> rfl
      | false =>
        have hkind : token.kind ≠ .whitespace := by simpa [isWhitespace] using hwhite
        refine wordsFrom_of_read (Lexeme.read_of_spells hspells ?_ fun hword => ?_)
        · exact startsIn_insert (fun c hc => continues_of_isBlank hkind (hw c hc)) hmaximal
        · refine startsIn_insert (fun c hc => ?_) (Lexeme.startsIn_quote_of_read hread hword)
          rcases isBlank_iff.mp (hw c hc) with rfl | rfl | rfl | rfl | rfl <;> rfl
    rw [List.append_assoc, hstep, hwords _ w hw, units_append]
    simp only [← Nat.add_assoc]
    cases wordsFrom (offset + units word + units front + units w) back with
    | error rejection => rfl
    | ok others => exact congrArg Except.ok (List.append_assoc ..).symm

/-- The words before a place between tokens, with and without white space put in there. -/
private theorem exists_wordsOfText {front back : Text} (h : StandsBetween front back) :
    ∃ words, wordsOfText (front ++ back) =
        (wordsFrom (units front) back).map (words ++ · ++ [eof]) ∧
      ∀ w, (∀ c ∈ w, isBlank c) → wordsOfText (front ++ (w ++ back)) =
        (wordsFrom (units front + units w) back).map (words ++ · ++ [eof]) := by
  obtain ⟨words, hwords⟩ := exists_wordsFrom_insert h
  have hsame : ∀ w, (∀ c ∈ w, isBlank c) → wordsOfText (front ++ (w ++ back)) =
      (wordsFrom (units front + units w) back).map (words ++ · ++ [eof]) := by
    intro w hw
    rw [wordsOfText_eq, hwords 0 w hw, Nat.zero_add]
    cases wordsFrom (units front + units w) back <;> rfl
  exact ⟨words, hsame [] (by simp), hsame⟩

/-- **White space that is put in between tokens** leaves the words of a text, or moves the offset of
the rejection. -/
theorem wordsOfText_insert {front back w : Text} (h : StandsBetween front back)
    (hw : ∀ c ∈ w, isBlank c) : wordsOfText (front ++ (w ++ back)) =
      (wordsOfText (front ++ back)).mapError (Rejection.shift (units w)) := by
  obtain ⟨words, hplain, hinsert⟩ := exists_wordsOfText h
  rw [hinsert w hw, hplain, wordsFrom_add]
  cases wordsFrom (units front) back <;> rfl

/-- The lexer stops where it stands or further along. -/
private theorem le_of_wordsFrom {offset : Nat} {s : Text} {cause : LexicalCause} {place : Int}
    (h : wordsFrom offset s = .error (.lexical cause place)) : (offset : Int) ≤ place := by
  induction s using Lexeme.text_induction generalizing offset with
  | nil => cases h
  | stuck s cause inner hs hread =>
    rw [wordsFrom, ofTextFrom_of_read_error hs hread] at h
    cases h
    omega
  | lexeme s lexeme hread ih =>
    rw [wordsFrom_of_read hread, Except.map_eq_error_iff] at h
    have hplace := ih h
    omega

/-- Behind a place between tokens, a text is turned down there or further along. -/
theorem le_of_wordsOfText {front back : Text} (h : StandsBetween front back) {cause : LexicalCause}
    {place : Int} (hstop : wordsOfText (front ++ back) = .error (.lexical cause place)) :
    (units front : Int) ≤ place := by
  obtain ⟨words, hplain, -⟩ := exists_wordsOfText h
  rw [hplain, Except.map_eq_error_iff] at hstop
  exact le_of_wordsFrom hstop

end Token

end MoveText
