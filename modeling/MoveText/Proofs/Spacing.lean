import MoveText.Proofs.Parse
import MoveText.Proofs.Token.Checks
import MoveText.Proofs.Token.Spacing

/-!
# White space does not matter

A reader of tokens sees no white space and no offsets, so it stops for reasons that lie in the
tokens (`TokenReader.NeverLexical`), and an entry point goes by the words of its input alone.
White space that is put in between tokens therefore changes no result, except that a lexical failure
moves along with the text, and that the failures of struct types quote the new input. The same holds
of white space that is taken out next to a mark or at an end (`spacing_never_matters`).
-/

namespace MoveText

/-! ### Readers stop at tokens -/

/-- The result is no lexical rejection. -/
def NeverLexical {α : Type} (result : Except Rejection α) : Prop :=
  ∀ rejection, result = .error rejection → rejection.category ≠ .lexical

namespace NeverLexical

variable {α β : Type}

theorem ok (a : α) : NeverLexical (.ok a) := by
  rintro _ ⟨⟩

theorem error {rejection : Rejection} (h : rejection.category ≠ .lexical) :
    NeverLexical (.error rejection : Except Rejection α) := by
  rintro _ ⟨⟩
  exact h

/-- What a token stands for has no offset. -/
theorem of_failsOnText {result : Except Rejection α} (h : FailsOnText result) :
    NeverLexical result := fun rejection hresult => (h rejection hresult).category_ne (by decide)

theorem ofToken (token : Token) : NeverLexical (Argument.ofToken token) := by
  by_cases htoken : token.IsLiteral
  · exact of_failsOnText (Argument.failsOnText_ofToken htoken)
  · rw [Argument.ofToken_of_not_isLiteral htoken]
    exact error nofun

/-- Such a result has no offset to move. -/
private theorem mapError_shift {result : Except Rejection α} (h : NeverLexical result)
    (width : Nat) : result.mapError (Rejection.shift width) = result := by
  cases result with
  | ok a => rfl
  | error rejection =>
    have hcategory := h rejection rfl
    cases rejection <;> first | rfl | exact absurd rfl hcategory

end NeverLexical

namespace TokenReader

variable {α β : Type} {item : TokenReader α}

/-- **The reader stops for reasons that lie in the tokens**, whatever they are. -/
def StopsAtTokens (r : TokenReader α) : Prop := ∀ tokens, NeverLexical (r tokens).1

namespace StopsAtTokens

theorem pure (a : α) : StopsAtTokens (Pure.pure a : TokenReader α) := fun _ => .ok a

theorem fail {rejection : Rejection} (h : rejection.category ≠ .lexical) :
    StopsAtTokens (TokenReader.fail rejection : TokenReader α) := fun _ => .error h

theorem ofExcept {result : Except Rejection α} (h : NeverLexical result) :
    StopsAtTokens (TokenReader.ofExcept result) := fun _ => h

theorem bind {r : TokenReader α} {f : α → TokenReader β} (hr : StopsAtTokens r)
    (hf : ∀ a, StopsAtTokens (f a)) : StopsAtTokens (r >>= f) := by
  intro tokens
  have hstop := hr tokens
  rcases h : r tokens with ⟨rejection | a, mid⟩ <;> rw [h] at hstop
  · rw [bind_of_error h]
    exact .error (hstop rejection rfl)
  · rw [bind_of_ok h]
    exact hf a mid

theorem ite {p : Prop} [Decidable p] {r r' : TokenReader α} (hr : StopsAtTokens r)
    (hr' : StopsAtTokens r') : StopsAtTokens (if p then r else r') := by
  split_ifs
  · exact hr
  · exact hr'

theorem next : StopsAtTokens next := fun tokens => by
  cases tokens with
  | nil => exact .error nofun
  | cons token rest => exact .ok token

theorem nextIs (token : Token) : StopsAtTokens (nextIs token) := fun _ => .ok _

theorem expect (token : Token) : StopsAtTokens (expect token) :=
  next.bind fun _ => ite (pure ()) (fail nofun)

theorem structPart : StopsAtTokens structPart :=
  next.bind fun _ => ite (pure _) (fail nofun)

theorem string : StopsAtTokens string := by
  refine StopsAtTokens.bind (next.bind fun token => ite (pure token) ?_) fun _ => pure _
  exact fail nofun

theorem itemsWithin (hitem : StopsAtTokens item) (stop : Token) (trailing : Bool) (rounds : Nat) :
    StopsAtTokens (itemsWithin item stop trailing rounds) := by
  induction rounds with
  | zero => exact fail nofun
  | succ rounds ih =>
    refine hitem.bind fun first => (nextIs stop).bind fun _ => ite (pure _) ?_
    refine (expect .comma).bind fun _ => (nextIs stop).bind fun _ => ite (pure _) ?_
    exact ih.bind fun others => pure _

theorem commaList (hitem : StopsAtTokens item) (stop : Token) (trailing : Bool) :
    StopsAtTokens (commaList item stop trailing) := fun tokens => by
  rw [TokenReader.commaList]
  split_ifs
  · exact .ok []
  · exact hitem.itemsWithin stop trailing _ tokens

theorem readArgument : StopsAtTokens Argument.read :=
  next.bind fun token => ofExcept (.ofToken token)

theorem readParams {param : TokenReader TypeTag} (hparam : StopsAtTokens param) :
    StopsAtTokens (TypeTag.readParams param) := by
  refine (nextIs .lt).bind fun _ => ite ?_ (pure [])
  refine (expect .lt).bind fun _ => (hparam.commaList .gt true).bind fun _ => ?_
  exact (expect .gt).bind fun _ => pure _

theorem readAbove (limit : Int) (levels : Nat) :
    StopsAtTokens (TypeTag.readAbove limit levels) := by
  induction levels with
  | zero => exact fail nofun
  | succ levels ih =>
    refine next.bind fun token => ?_
    split
    · exact pure _
    · exact (expect .lt).bind fun _ => ih.bind fun _ => (expect .gt).bind fun _ => pure _
    · refine (expect .colonColon).bind fun _ => structPart.bind fun _ => ?_
      refine (expect .colonColon).bind fun _ => structPart.bind fun _ => ?_
      refine ih.readParams.bind fun _ => ?_
      refine (ofExcept (.of_failsOnText (.textOf token))).bind fun _ => ?_
      exact (ofExcept (.of_failsOnText (.create _ _ _))).bind fun _ => pure _
    · exact fail nofun

theorem readTag (depth limit : Int) : StopsAtTokens (TypeTag.read depth limit) :=
  ite (fail nofun) (readAbove limit _)

variable {reader : TokenReader α} {input input' : Text} {width : Nat}

/-- The reader and the end that has to follow stop at tokens. -/
theorem whole (h : StopsAtTokens reader) :
    StopsAtTokens (do let value ← reader; TokenReader.expect .eof; return value) :=
  h.bind fun _ => (expect .eof).bind fun _ => pure _

/-- **What is read goes by the words**: where these are the same but for an offset, so is what is
read. -/
theorem readText_eq (h : StopsAtTokens reader) (hwords : Token.wordsOfText input' =
      (Token.wordsOfText input).mapError (Rejection.shift width)) :
    reader.readText input' = (reader.readText input).mapError (Rejection.shift width) := by
  rw [readText, readText, hwords]
  cases Token.wordsOfText input with
  | error rejection => rfl
  | ok tokens => exact ((h.whole tokens).mapError_shift width).symm

/-- A text that is turned down for a lexical cause cannot be cut into tokens. -/
private theorem wordsOfText_of_readText (h : StopsAtTokens reader) {cause : LexicalCause}
    {offset : Int} (hread : reader.readText input = .error (.lexical cause offset)) :
    Token.wordsOfText input = .error (.lexical cause offset) := by
  rw [readText] at hread
  cases hwords : Token.wordsOfText input with
  | error rejection =>
    rw [hwords] at hread
    cases hread
    rfl
  | ok tokens =>
    rw [hwords] at hread
    exact absurd rfl (h.whole tokens _ hread)

end StopsAtTokens

end TokenReader

/-! ### Results -/

namespace Failure

/-- The failure with its offset moved on by `width`, if it is a lexical one. -/
def shift (width : Nat) : Failure → Failure
  | rejected rejection => rejected (rejection.shift width)
  | badStructTag input cause => badStructTag input (cause.shift width)
  | failure => failure

/-- The failure with another input where it quotes one. -/
def requote (input : Text) : Failure → Failure
  | badStructTag _ cause => badStructTag input cause
  | notAStructTag _ => notAStructTag input
  | failure => failure

private theorem shift_zero : shift 0 = id := by
  have hrejection : ∀ rejection : Rejection, rejection.shift 0 = rejection := fun rejection => by
    cases rejection <;> simp [Rejection.shift]
  funext failure
  cases failure <;> simp [shift, hrejection]

end Failure

/-- **Two texts have the same results**, but for a change of the failures and for the quotes. -/
structure SameResults (options : Option Value) (change : Failure → Failure)
    (input input' : Text) : Prop where
  typeTag : (TypeTag.parse options input').result =
    (TypeTag.parse options input).result.mapError change
  typeTags : (TypeTag.parseList options input').result =
    (TypeTag.parseList options input).result.mapError change
  argument : (Argument.parse input').result = (Argument.parse input).result.mapError change
  arguments : (Argument.parseList input').result =
    (Argument.parseList input).result.mapError change
  names : (Identifier.parseList input').result =
    (Identifier.parseList input).result.mapError change
  structTag : (StructTag.parse options input').result =
    (StructTag.parse options input).result.mapError fun failure => (change failure).requote input'

/-- An entry point turns the text down for a lexical cause at an offset. -/
def FailsLexically (options : Option Value) (input : Text) (cause : LexicalCause) (offset : Int) :
    Prop :=
  let rejection := Rejection.lexical cause offset
  (TypeTag.parse options input).result = .error (.rejected rejection) ∨
  (TypeTag.parseList options input).result = .error (.rejected rejection) ∨
  (Argument.parse input).result = .error (.rejected rejection) ∨
  (Argument.parseList input).result = .error (.rejected rejection) ∨
  (Identifier.parseList input).result = .error (.rejected rejection) ∨
  (StructTag.parse options input).result = .error (.badStructTag input rejection)

section Entries

variable {α : Type} {reader : TokenReader α} {options : Option Value} {input input' : Text}
  {width : Nat} {cause : LexicalCause} {offset : Int}

namespace Outcome

private theorem ofReader_result (reader : TokenReader α) (input : Text) :
    (ofReader reader input).result = (reader.readText input).mapError .rejected := by
  rw [ofReader]
  cases reader.readText input <;> rfl

private theorem ofReader_result_shift (h : reader.StopsAtTokens)
    (hwords : Token.wordsOfText input' =
      (Token.wordsOfText input).mapError (Rejection.shift width)) :
    (ofReader reader input').result =
      (ofReader reader input).result.mapError (Failure.shift width) := by
  rw [ofReader_result, ofReader_result, h.readText_eq hwords]
  cases reader.readText input <;> rfl

/-- A reader gives a failure exactly if it stops for a reason. -/
theorem ofReader_result_eq_error_iff {failure : Failure} :
    (ofReader reader input).result = .error failure ↔
      ∃ rejection, reader.readText input = .error rejection ∧ failure = .rejected rejection := by
  rw [ofReader_result]
  cases reader.readText input <;> simp [Except.mapError, eq_comm]

/-- Under options there is a failure exactly if they are bad, or if there is one under what they
come to. -/
private theorem underOptions_result_eq_error_iff {activity : Options → Outcome Failure α}
    {failure : Failure} : (underOptions options activity).result = .error failure ↔
      (∃ fault, Options.resolve options = .error fault ∧ failure = .badOptions fault) ∨
      ∃ resolved, Options.resolve options = .ok resolved ∧
        (activity resolved).result = .error failure := by
  rw [underOptions]
  cases Options.resolve options <;> simp [eq_comm]

private theorem wordsOfText_of_ofReader (h : reader.StopsAtTokens)
    (hstop : (ofReader reader input).result = .error (.rejected (.lexical cause offset))) :
    Token.wordsOfText input = .error (.lexical cause offset) := by
  obtain ⟨_, hread, ⟨⟩⟩ := ofReader_result_eq_error_iff.mp hstop
  exact h.wordsOfText_of_readText hread

variable {readerUnder : Options → TokenReader α}

private theorem underOptions_result_shift (h : ∀ resolved, (readerUnder resolved).StopsAtTokens)
    (hwords : Token.wordsOfText input' =
      (Token.wordsOfText input).mapError (Rejection.shift width)) :
    (underOptions options fun resolved => ofReader (readerUnder resolved) input').result =
      (underOptions options fun resolved => ofReader (readerUnder resolved) input).result.mapError
        (Failure.shift width) := by
  rw [underOptions, underOptions]
  cases Options.resolve options with
  | error fault => rfl
  | ok resolved => exact ofReader_result_shift (h resolved) hwords

private theorem wordsOfText_of_underOptions (h : ∀ resolved, (readerUnder resolved).StopsAtTokens)
    (hstop : (underOptions options fun resolved => ofReader (readerUnder resolved) input).result =
      .error (.rejected (.lexical cause offset))) :
    Token.wordsOfText input = .error (.lexical cause offset) := by
  rcases underOptions_result_eq_error_iff.mp hstop with ⟨_, -, ⟨⟩⟩ | ⟨resolved, -, hstop⟩
  exact wordsOfText_of_ofReader (h resolved) hstop

end Outcome

namespace StructTag

/-- What a type tag, or the failure to read one, comes to where a struct type is wanted. -/
def ofTagResult (input : Text) : Except Failure TypeTag → Except Failure StructTag
  | .ok (.struct name params) => .ok ⟨name, params⟩
  | .ok _ => .error (.notAStructTag input)
  | .error (.rejected rejection) =>
    if rejection.concernsInput then .error (.badStructTag input rejection)
    else .error (.rejected rejection)
  | .error failure => .error failure

private theorem parse_result (options : Option Value) (input : Text) :
    (parse options input).result = ofTagResult input (TypeTag.parse options input).result := by
  rw [parse]
  rcases TypeTag.parse options input with ⟨failure | tag, log⟩
  · cases failure with
    | rejected rejection =>
      simp only [ofTagResult]
      split_ifs <;> rfl
    | _ => rfl
  · cases tag <;> rfl

/-- The results of the tags are as those of the struct types, but for the quotes. -/
private theorem ofTagResult_shift {result : Except Failure TypeTag}
    (hplain : ∀ failure, result = .error failure →
      (∃ fault, failure = .badOptions fault) ∨ ∃ rejection, failure = .rejected rejection) :
    ofTagResult input' (result.mapError (Failure.shift width)) =
      (ofTagResult input result).mapError fun failure =>
        (failure.shift width).requote input' := by
  cases result with
  | ok tag => cases tag <;> rfl
  | error failure =>
    rcases hplain failure rfl with ⟨fault, rfl⟩ | ⟨rejection, rfl⟩
    · rfl
    · have hconcerns : (rejection.shift width).concernsInput = rejection.concernsInput := by
        cases rejection <;> rfl
      simp only [Except.mapError, Failure.shift, ofTagResult, hconcerns]
      split_ifs <;> rfl

end StructTag

/-- A tag is turned down for bad options or for its text, and no input is quoted. -/
private theorem TypeTag.failure_of_parse {failure : Failure}
    (h : (TypeTag.parse options input).result = .error failure) :
    (∃ fault, failure = .badOptions fault) ∨ ∃ rejection, failure = .rejected rejection := by
  rcases Outcome.underOptions_result_eq_error_iff.mp h with ⟨fault, -, hfault⟩ | ⟨_, -, hread⟩
  · exact .inl ⟨fault, hfault⟩
  · obtain ⟨rejection, -, hrejection⟩ := Outcome.ofReader_result_eq_error_iff.mp hread
    exact .inr ⟨rejection, hrejection⟩

open TokenReader.StopsAtTokens

/-- **The results go by the words** of a text. -/
theorem sameResults_of_wordsOfText (hwords : Token.wordsOfText input' =
      (Token.wordsOfText input).mapError (Rejection.shift width)) :
    SameResults options (Failure.shift width) input input' := by
  have htag : (TypeTag.parse options input').result =
      (TypeTag.parse options input).result.mapError (Failure.shift width) :=
    Outcome.underOptions_result_shift (fun _ => readTag _ _) hwords
  refine ⟨htag, Outcome.underOptions_result_shift (fun _ => (readTag _ _).commaList _ _) hwords,
    Outcome.ofReader_result_shift readArgument hwords,
    Outcome.ofReader_result_shift (readArgument.commaList _ _) hwords,
    Outcome.ofReader_result_shift (string.commaList _ _) hwords, ?_⟩
  rw [StructTag.parse_result, StructTag.parse_result, htag]
  exact StructTag.ofTagResult_shift fun _ => TypeTag.failure_of_parse

/-- A text that an entry point turns down for a lexical cause cannot be cut into tokens. -/
private theorem FailsLexically.wordsOfText (h : FailsLexically options input cause offset) :
    Token.wordsOfText input = .error (.lexical cause offset) := by
  have htag : (TypeTag.parse options input).result = .error (.rejected (.lexical cause offset)) →
      Token.wordsOfText input = .error (.lexical cause offset) :=
    Outcome.wordsOfText_of_underOptions fun _ => readTag _ _
  rcases h with h | h | h | h | h | h
  · exact htag h
  · exact Outcome.wordsOfText_of_underOptions (fun _ => (readTag _ _).commaList _ _) h
  · exact Outcome.wordsOfText_of_ofReader readArgument h
  · exact Outcome.wordsOfText_of_ofReader (readArgument.commaList _ _) h
  · exact Outcome.wordsOfText_of_ofReader (string.commaList _ _) h
  · -- only a rejected tag is wrapped in a failure that quotes the input with a cause
    refine htag ?_
    rw [StructTag.parse_result] at h
    cases hparse : (TypeTag.parse options input).result with
    | ok tag =>
      rw [hparse] at h
      cases tag <;> cases h
    | error failure =>
      rcases TypeTag.failure_of_parse hparse with ⟨fault, rfl⟩ | ⟨rejection, rfl⟩ <;>
        rw [hparse] at h
      · cases h
      · simp only [StructTag.ofTagResult] at h
        split_ifs at h
        · cases h
          rfl
        · cases h

end Entries

/-- **White space between tokens never matters.** White space that is put in where a token starts or
the text ends leaves the results at all entry points as they are, for values and for failures,
except that a lexical failure moves on by the white space and that the failures of struct types
quote the new input; and a lexical failure is located at that place or behind it. White space that
is taken out at an end of the text, or next to a mark, leaves all results as they are but for the
quotes. -/
theorem spacing_never_matters (options : Option Value) :
    (∀ front back w : Text, front.StandsBetween back → (∀ c ∈ w, Text.isBlank c) →
      SameResults options (Failure.shift w.units) (front ++ back) (front ++ (w ++ back)) ∧
      ∀ cause offset, FailsLexically options (front ++ back) cause offset →
        (front.units : Int) ≤ offset) ∧
    ∀ (input : Text) (before after : List (Token × Text)) (run : Token × Text),
      input.Cut (before ++ run :: after) → run.1.isWhitespace →
      (before = [] ∨ after = [] ∨ (∃ last ∈ before.getLast?, last.1.kind.isMark) ∨
        ∃ next ∈ after.head?, next.1.kind.isMark) →
      SameResults options id input ((before ++ after).map Prod.snd).flatten := by
  constructor
  · intro front back w hplace hw
    exact ⟨sameResults_of_wordsOfText (Token.wordsOfText_insert hplace hw),
      fun cause offset hfails => Token.le_of_wordsOfText hplace hfails.wordsOfText⟩
  · intro input before after run hcut hwhite hmark
    have hwords : Token.wordsOfText ((before ++ after).map Prod.snd).flatten =
        (Token.wordsOfText input).mapError (Rejection.shift 0) := by
      rw [hcut.hasWords.wordsOfText_eq, (hcut.erase hmark).hasWords.wordsOfText_eq]
      simp [Except.mapError, hwhite]
    rw [← Failure.shift_zero]
    exact sameResults_of_wordsOfText hwords

/-- A blank before a character that starts no token moves the failure by one, and the blank before a
comma can be left out. -/
theorem spacing_never_matters_digit :
    let before := [(⟨.keyword (.primitive .u8), none⟩, ['u', '8'])]
    let run : Token × Text := (⟨.whitespace, some [' ']⟩, [' '])
    let after := [(Token.comma, [','])]
    (Text.StandsBetween ['3'] ['%'] ∧ (∀ c ∈ [' '], Text.isBlank c) ∧
      (Argument.parse ['3', '%']).result = .error (.rejected (.lexical .unrecognized 1)) ∧
      (Argument.parse ['3', ' ', '%']).result = .error (.rejected (.lexical .unrecognized 2))) ∧
    Text.Cut "u8 ,".toList (before ++ run :: after) ∧ run.1.isWhitespace ∧
      (∃ next ∈ after.head?, next.1.kind.isMark) ∧
      (TypeTag.parseList none "u8 ,".toList).result = .ok [.primitive .u8] ∧
      (TypeTag.parseList none "u8,".toList).result = .ok [.primitive .u8] := by
  intro before run after
  have hplace : Text.StandsBetween (['3'] ++ []) ['%'] :=
    .lexeme (rfl : Lexeme.read ['3', '%'] = .ok ⟨⟨.integer .u64, some ['3']⟩, ['3'], ['%']⟩)
      (.start _)
  have hblank : ∀ c ∈ [' '], Text.isBlank c := List.all_eq_true.mp (by decide)
  have hcut : Text.Cut "u8 ,".toList (before ++ run :: after) := by
    refine Text.cut_iff.mpr ⟨rfl, ?_, ?_⟩
    · refine List.forall_mem_cons.mpr ⟨.keyword (.primitive .u8), List.forall_mem_cons.mpr ⟨?_, ?_⟩⟩
      · exact .blanks (by simp) hblank
      · exact List.forall_mem_singleton.mpr .comma
    · exact .cons_cons rfl (.cons_cons rfl (.singleton _))
  have hmark : ∃ next ∈ after.head?, next.1.kind.isMark := ⟨_, rfl, rfl⟩
  have hsame := ((spacing_never_matters none).1 _ _ _ hplace hblank).1
  have hsame' := (spacing_never_matters none).2 _ _ _ _ hcut rfl (.inr (.inr (.inr hmark)))
  have hlist : (TypeTag.parseList none "u8 ,".toList).result = .ok [.primitive .u8] := rfl
  refine ⟨⟨hplace, hblank, rfl, hsame.argument.trans rfl⟩, hcut, rfl, hmark, hlist, ?_⟩
  exact hsame'.typeTags.trans (congrArg (Except.mapError id) hlist)

end MoveText
