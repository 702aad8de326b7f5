import MoveText.Proofs.EntryPoints
import MoveText.Proofs.ListParsing
import MoveText.Proofs.Spacing
import MoveText.Proofs.TypeTag.Shape

/-!
# Syntax errors at the first offending token

The grammar of an entry point is a language of tokens by their kinds, behind which the end has to
stand. What an entry point accepts is in its grammar, and what is in the grammar is turned down at
most for the depth of a tag or for what a literal stands for. Of other texts a syntax error names
the first token that offends the grammar: the tokens in front of it can be completed, by tokens that
occur in texts, and with it they cannot be completed by any tokens at all
(`syntax_errors_name_first_offence`).
-/

namespace MoveText

open Token TokenReader

/-- The rejection is one of a tag that is too deep, or of a literal that is too long, too great or
of an odd number of digits. -/
def Rejection.IsBeyondShape : Rejection → Prop
  | tooDeep .. | longAddress _ | overflow .. | oddBytes _ => True
  | _ => False

/-- What arises names a token, or lies beyond the shape of the tokens, or is lexical. -/
private theorem Rejection.Arises.cases_actual? {nests : Prop} {rejection : Rejection}
    (h : rejection.Arises nests) :
    (∃ token : Token, rejection.actual? = some token.describe) ∨ rejection.IsBeyondShape ∨
      rejection.category = .lexical := by
  cases h with
  | lexical => exact .inr (.inr rfl)
  | mismatch | notAName | unexpected => exact .inl ⟨_, rfl⟩
  | _ => exact .inr (.inl trivial)

/-- A syntax error that arises names a token. -/
private theorem Rejection.Arises.exists_actual? {nests : Prop} {rejection : Rejection}
    (h : rejection.Arises nests) (hcategory : rejection.category = .grammatical) :
    ∃ token : Token, rejection.actual? = some token.describe := by
  cases h with
  | mismatch | notAName | unexpected => exact ⟨_, rfl⟩
  | _ => cases hcategory

/-- **An entry point names the first offence** against a grammar, which is followed by the end.
What it accepts is in the grammar, and of what is in the grammar it turns down only what lies beyond
the shape of tokens. -/
structure NamesFirstOffence {α : Type} (entry : Text → Outcome Failure α)
    (grammar : Language Token) : Prop where
  accepts {input : Text} {a : α} (h : (entry input).result = .ok a) :
    ∃ words, input.HasWords words ∧ words ∈ grammar
  spares {input : Text} {words : List Token} {rejection : Rejection}
    (hwords : input.HasWords words) (hgrammar : words ∈ grammar)
    (h : (entry input).result = .error (.rejected rejection)) : rejection.IsBeyondShape
  names {input : Text} {rejection : Rejection}
    (h : (entry input).result = .error (.rejected rejection))
    (hcategory : rejection.category = .grammatical) :
    ∃ words front token back, input.HasWords words ∧ words ++ [.eof] = front ++ token :: back ∧
      rejection.actual? = some token.describe ∧ Offends (grammar * {[.eof]}) front token

/-! ### Reading whole texts -/

namespace TokenReader

variable {α : Type} {reader item : TokenReader α} {grammar : Language Token}

/-- A text that is turned down, and not for a lexical cause, has words on which the reader stops. -/
private theorem exists_hasWords_of_readText {input : Text} {rejection : Rejection}
    (h : reader.readText input = .error rejection) (hcategory : rejection.category ≠ .lexical) :
    ∃ words, input.HasWords words ∧
      ((reader >>= fun a => expect .eof >>= fun _ => pure a) (words ++ [.eof])).1 =
        .error rejection := by
  rw [readText] at h
  cases hwords : Token.wordsOfText input with
  | error found =>
    rw [hwords] at h
    obtain ⟨cause, offset, rfl⟩ := Token.lexical_of_wordsOfText hwords
    obtain rfl := Except.error.inj h
    exact absurd rfl hcategory
  | ok tokens =>
    rw [hwords] at h
    obtain ⟨words, hhas, rfl⟩ := Text.exists_hasWords_of_wordsOfText hwords
    exact ⟨words, hhas, h⟩

/-- A text is turned down only for a reason that arises. -/
private theorem Meets.arises_of_readText {nests : Prop} {Q : α → Prop} (h : Meets nests Q reader)
    {input : Text} {rejection : Rejection} (hread : reader.readText input = .error rejection) :
    rejection.Arises nests := by
  rcases h.readText input with ⟨a, ha, -⟩ | ⟨found, hfound, harises⟩
  · rw [ha] at hread
    cases hread
  · rw [hfound] at hread
    exact Except.error.inj hread ▸ harises

/-- **A reader that blames its grammar names the first offence** in whole texts. -/
theorem namesFirstOffence_ofReader {nests : Prop} {Q : α → Prop}
    (hblames : Blames (grammar * {[.eof]}) (reader >>= fun a => expect .eof >>= fun _ => pure a))
    (hmeets : Meets nests Q reader) (hstops : StopsAtTokens reader)
    (haccepts : ∀ input a, reader.readText input = .ok a →
      ∃ words, input.HasWords words ∧ words ∈ grammar) :
    NamesFirstOffence (Outcome.ofReader reader) grammar where
  accepts h := haccepts _ _ (Outcome.ofReader_result_eq_ok_iff.mp h)
  spares {input words rejection} hwords hgrammar h := by
    obtain ⟨_, hread, ⟨⟩⟩ := Outcome.ofReader_result_eq_error_iff.mp h
    have harises := hmeets.arises_of_readText hread
    rw [readText, hwords.wordsOfText_eq] at hread
    rcases harises.cases_actual? with ⟨token, htoken⟩ | hbeyond | hlexical
    · -- the words are a list of the grammar, so no token of them offends it
      obtain ⟨front, t, back, heq, -, hoffends⟩ := hblames _ _ _ hread htoken
      have hmem : words ++ [.eof] ∈ grammar * {[.eof]} := Language.append_mem_mul hgrammar rfl
      rw [heq] at hmem
      exact absurd hmem (hoffends.dead back)
    · exact hbeyond
    · exact absurd hlexical (hstops.whole _ _ hread)
  names {input rejection} h hcategory := by
    obtain ⟨_, hread, ⟨⟩⟩ := Outcome.ofReader_result_eq_error_iff.mp h
    have hnot : rejection.category ≠ .lexical := by
      rw [hcategory]
      decide
    obtain ⟨words, hwords, hwhole⟩ := exists_hasWords_of_readText hread hnot
    obtain ⟨shown, hshown⟩ := (hmeets.arises_of_readText hread).exists_actual? hcategory
    obtain ⟨front, token, back, heq, htoken, hoffends⟩ := hblames _ _ _ hwhole hshown
    exact ⟨words, front, token, back, hwords, heq, hshown.trans (congrArg some htoken), hoffends⟩

/-! ### Items and lists of items -/

/-- **An item reader follows a grammar**: it predicts the lists of the grammar, none of which starts
with the end, and takes only such lists. -/
structure Follows (item : TokenReader α) (grammar : Language Token) : Prop where
  predicts : Predicts item grammar
  starts : StartsBut .eof grammar
  stops : StopsAtTokens item
  meets : ∃ nests, Meets nests (fun _ => True) item
  takes : ∃ R, Takes item R ∧ ∀ words a, R words a → words ∈ grammar

/-- A whole text is read as an item of the grammar. -/
theorem Follows.namesFirstOffence (h : Follows item grammar) :
    NamesFirstOffence (Outcome.ofReader item) grammar := by
  obtain ⟨nests, hmeets⟩ := h.meets
  obtain ⟨R, htakes, hR⟩ := h.takes
  refine namesFirstOffence_ofReader h.predicts.blames_whole hmeets h.stops fun input a hread => ?_
  obtain ⟨words, hwords, hRwords⟩ := htakes.readText_eq_ok_iff.mp hread
  exact ⟨words, hwords, hR words a hRwords⟩

/-- A whole text is read as a list of items of the grammar. -/
theorem Follows.namesFirstOffence_commaList (h : Follows item grammar) :
    NamesFirstOffence (Outcome.ofReader (commaList item .eof true)) (listsOf grammar) := by
  obtain ⟨nests, hmeets⟩ := h.meets
  obtain ⟨R, htakes, hR⟩ := h.takes
  have hclosed : ∀ found : List α,
      Blames ({[.eof]} * 1) (expect .eof >>= fun _ => pure found) := fun found =>
    blames_expect_bind (.inl rfl) completable_one (blames_pure found)
  have hblames := blames_commaList h.starts (.inl rfl) completable_one h.predicts (by decide)
    (by decide) hclosed
  rw [mul_one] at hblames
  refine namesFirstOffence_ofReader hblames (hmeets.commaList htakes.advances .eof true)
    (h.stops.commaList .eof true) fun input found hread => ?_
  obtain ⟨words, hwords, parts, extra, hextra, hparts, rfl, -⟩ :=
    htakes.readText_commaList_eq_ok_iff.mp hread
  refine ⟨_, hwords, parts.map Prod.fst, extra, fun hnil => hextra (List.map_eq_nil_iff.mp hnil),
    fun stretch hstretch => ?_, rfl⟩
  obtain ⟨part, hpart, rfl⟩ := List.mem_map.mp hstretch
  exact hR _ _ (hparts part hpart)

end TokenReader

/-! ### The grammars of the entry points -/

/-- The language of single literals. -/
def Argument.literals : Language Token := oneOf Token.IsLiteral

private theorem Argument.predicts_read : Predicts read literals := by
  have hliteral : ∃ t : Token, t.IsLiteral ∧ t.Occurs :=
    ⟨_, .inr (.inl ⟨true, rfl⟩), .inr ⟨_, .keyword (.truth true)⟩⟩
  intro β f K hK hf
  rw [read, bind_assoc]
  refine blames_next_bind hliteral hK.completable (fun t ht => ?_) fun t ht tokens => ?_
  · exact blames_ofExcept_bind (failsOnText_ofToken ht) hf
  · rw [ofToken_of_not_isLiteral ht]
    exact ⟨_, rfl, rfl⟩

theorem Argument.follows_read : Follows read literals where
  predicts := predicts_read
  starts := by
    rintro _ ⟨t, ht, rfl⟩
    refine ⟨t, [], rfl, ?_⟩
    rintro rfl
    rcases ht with ⟨_, ht⟩ | ⟨_, ht⟩ | ht | ht <;> cases ht
  stops := .readArgument
  meets := ⟨False, meets_read.imp fun _ _ => trivial⟩
  takes := by
    refine ⟨_, takes_read, ?_⟩
    rintro _ a ⟨t, rfl, ht⟩
    refine ⟨t, by_contra fun hnot => ?_, rfl⟩
    rw [ofToken_of_not_isLiteral hnot] at ht
    cases ht

private theorem predicts_string : Predicts string names := by
  intro β f K hK hf
  rw [string, stringToken, bind_assoc, bind_assoc]
  refine blames_next_bind exists_name hK.completable (fun t ht => ?_) fun t ht tokens => ?_
  · rw [if_pos ht, pure_bind, pure_bind]
    exact hf t.text
  · rw [if_neg ht]
    exact ⟨_, rfl, rfl⟩

theorem follows_string : Follows string names where
  predicts := predicts_string
  starts := by
    rintro _ ⟨t, ht, rfl⟩
    refine ⟨t, [], rfl, ?_⟩
    rintro rfl
    cases ht
  stops := .string
  meets := ⟨False, meets_string⟩
  takes := by
    refine ⟨_, takes_string, ?_⟩
    rintro _ s rfl
    exact ⟨_, rfl, rfl⟩

theorem TypeTag.follows_read {limit : Nat} (hlimit : 0 < limit) :
    Follows (read 0 limit) shapes where
  predicts := by
    rw [read_eq_readAbove hlimit]
    exact predicts_readAbove limit limit
  starts := startsBut_shapes (.inr rfl)
  stops := .readTag 0 limit
  meets := ⟨True, meets_read hlimit⟩
  takes := ⟨_, takes_read hlimit, fun _ _ hderives => hderives.shape⟩

/-- Under options that are bad no text is read. -/
private theorem NamesFirstOffence.underOptions {α : Type} {options : Option Value}
    {activity : Options → Text → Outcome Failure α} {grammar : Language Token}
    (h : ∀ resolved, Options.resolve options = .ok resolved →
      NamesFirstOffence (activity resolved) grammar) :
    NamesFirstOffence (fun input => Outcome.underOptions options (activity · input)) grammar := by
  cases hresolve : Options.resolve options with
  | error fault =>
    have hbad : ∀ input, (Outcome.underOptions options (activity · input)).result =
        .error (.badOptions fault) := fun input => by
      rw [Outcome.underOptions, hresolve]
    constructor <;> simp [hbad]
  | ok resolved =>
    have hsame : (fun input => Outcome.underOptions options (activity · input)) =
        activity resolved := by
      funext input
      rw [Outcome.underOptions, hresolve]
    rw [hsame]
    exact h resolved hresolve

/-- **Syntax errors name the first offending token.** Under any options and on any input, if one of
the entry points for type tags, arguments and names turns the input down with a syntax error, this
names a token of the input, or its end, such that the tokens in front of it can be completed to
what the grammar of the entry point accepts, while with it they cannot. -/
theorem syntax_errors_name_first_offence (options : Option Value) :
    NamesFirstOffence (TypeTag.parse options) TypeTag.shapes ∧
    NamesFirstOffence (TypeTag.parseList options) (listsOf TypeTag.shapes) ∧
    NamesFirstOffence Argument.parse Argument.literals ∧
    NamesFirstOffence Argument.parseList (listsOf Argument.literals) ∧
    NamesFirstOffence Identifier.parseList (listsOf names) := by
  refine ⟨.underOptions fun resolved hresolved => ?_, .underOptions fun resolved hresolved => ?_,
    Argument.follows_read.namesFirstOffence, Argument.follows_read.namesFirstOffence_commaList,
    follows_string.namesFirstOffence_commaList⟩
  · exact (TypeTag.follows_read (Options.bounds_of_resolve hresolved).1).namesFirstOffence
  · exact (TypeTag.follows_read (Options.bounds_of_resolve hresolved).1).namesFirstOffence_commaList

/-- A comma within the brackets of a vector is named, not what stands behind it. -/
theorem syntax_errors_name_first_offence_comma :
    (TypeTag.parse (some (Options.ofLimit 2)) "vector<u8,>".toList).result =
        .error (.rejected (.mismatch .gt .comma)) ∧
      ∃ words front token back, Text.HasWords "vector<u8,>".toList words ∧
        words ++ [.eof] = front ++ token :: back ∧ Token.comma.describe = token.describe ∧
        Offends (TypeTag.shapes * {[.eof]}) front token := by
  have hwords : Token.wordsOfText "vector<u8,>".toList = .ok [⟨.keyword .vector, none⟩, .lt,
      ⟨.keyword (.primitive .u8), none⟩, .comma, .gt, .eof] := rfl
  have hfails : (TypeTag.parse (some (Options.ofLimit 2)) "vector<u8,>".toList).result =
      .error (.rejected (.mismatch .gt .comma)) := by
    rw [TypeTag.parse_ofLimit (by decide) (by decide), Outcome.ofReader_result_eq_error_iff]
    refine ⟨_, ?_, rfl⟩
    rw [readText, hwords, TypeTag.read_eq_readAbove (by decide)]
    rfl
  obtain ⟨words, front, token, back, hhas, heq, hactual, hoffends⟩ :=
    (syntax_errors_name_first_offence (some (Options.ofLimit 2))).1.names hfails rfl
  exact ⟨hfails, words, front, token, back, hhas, heq, Option.some.inj hactual, hoffends⟩

end MoveText
