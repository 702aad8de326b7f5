import MoveText.Proofs.Argument.Reading

/-!
# Arguments as literals

An argument is written as one word, which spells the token `Argument.word` and stands for the
argument again (`ofToken_word`). With separators between them arguments give their words with commas
between them, so a list of them is parsed as itself, with or without a comma behind the last one
(`parseList_join`).
-/

namespace MoveText

namespace Argument

open Text

/-- The word that an argument is written with. -/
def word : Argument → Token
  | integer width value => ⟨.integer width, some (Text.ofInt value)⟩
  | bool value => ⟨.keyword (.truth value), none⟩
  | address value => ⟨.address, some (Address.shorten value)⟩
  | bytes value => ⟨.bytes, some (Text.hexOfBytes value)⟩

variable {a : Argument} {args : List Argument}

/-! ### Single arguments -/

/-- The literal of an argument spells its word. -/
private theorem spells_render (h : a.InRange) : a.word.Spells a.render := by
  cases a with
  | integer width value =>
    rw [word, render, ofInt_of_nonneg h.1]
    exact .sizedNumber (ofNat_ne_nil _) fun c => isDigit_of_mem_ofNat
  | bool value => cases value <;> exact .keyword (.truth _)
  | address value =>
    obtain ⟨shown, heq, hne, hshown, -, -⟩ := Address.exists_shown_shorten h
    rw [word, render, heq]
    exact .address (.inl rfl) hne fun c hc => isHexDigit_of_isLowerHexDigit (hshown c hc)
  | bytes value =>
    exact .hexBytes fun c hc => isHexDigit_of_isLowerHexDigit (isLowerHexDigit_of_mem_hexOfBytes hc)

/-- **The word of an argument stands for the argument.** -/
theorem ofToken_word (h : a.InRange) : ofToken a.word = .ok a := by
  cases a with
  | integer width value =>
    have hread : ofNumeral width (Text.ofNat value.toNat) = .ok (integer width value) := by
      obtain ⟨hnonneg, hle⟩ := h
      have hfits : ¬ width.max < value.toNat := by omega
      rw [ofNumeral_of_isDigit width (ofNat_ne_nil _) fun c => isDigit_of_mem_ofNat,
        digitsValue_ofNat, if_neg hfits, Int.toNat_of_nonneg hnonneg]
    rw [word, ofInt_of_nonneg h.1]
    exact hread
  | bool value => rfl
  | address value =>
    obtain ⟨shown, heq, hne, hshown, hlength, hpadded⟩ := Address.exists_shown_shorten h
    have hfits : ¬ 64 < shown.length := Nat.not_lt_of_le hlength
    rw [word, heq, ofToken_address hne fun c hc => isHexDigit_of_isLowerHexDigit (hshown c hc),
      if_neg hfits, hpadded]
  | bytes value =>
    have heven : ¬ (Text.hexOfBytes value).length % 2 ≠ 0 := by
      rw [length_hexOfBytes]
      omega
    have hread : ofHex (Text.hexOfBytes value) = .ok (bytes value) := by
      rw [ofHex_of_isHexDigit fun c hc =>
          isHexDigit_of_isLowerHexDigit (isLowerHexDigit_of_mem_hexOfBytes hc),
        if_neg heven, bytesOfHex_hexOfBytes]
    exact hread

private theorem isWhitespace_word (a : Argument) : a.word.isWhitespace = false := by
  cases a <;> rfl

/-- What would prolong the word of an argument would prolong a name. -/
private theorem isNameChar_of_continues {c : Char} (hc : a.word.kind.continues c) :
    isNameChar c := by
  cases a with
  | integer width value => exact isNameChar_iff.mpr (.inr (isAlphanum_iff.mp hc))
  | bool value => exact hc
  | address value => exact isNameChar_of_isHexDigit hc
  | bytes value => cases hc

private theorem gives_render (h : a.InRange) : Gives a.render gluesToWord True [a.word] :=
  gives_of_spells (spells_render h) (isWhitespace_word a)
    (fun _ hc => Bool.or_eq_true_iff.mpr (.inl (isNameChar_of_continues hc))) fun _ => rfl

/-- The literal of an argument does not start with white space. -/
private theorem startsIn_isBlank_render (h : a.InRange) (tail : Text) :
    startsIn isBlank (a.render ++ tail) = false := by
  have hspells := spells_render h
  rw [startsIn_append hspells.ne_nil]
  exact hspells.startsIn_isBlank (isWhitespace_word a)

/-! ### Lists of arguments -/

variable {separator : Text}

/-- Arguments with separators between them give their words with commas between them. -/
private theorem gives_join (hseparator : IsSeparator separator) (h : ∀ a ∈ args, a.InRange)
    (hne : args ≠ []) :
    Gives (join separator (args.map render)) gluesToWord True
      (Token.listed (args.map fun a => [a.word]) false) := by
  induction args with
  | nil => exact absurd rfl hne
  | cons a args ih =>
    obtain ⟨ha, hargs⟩ := List.forall_mem_cons.mp h
    cases args with
    | nil => simpa [join, Token.listed_singleton] using gives_render ha
    | cons next args =>
      have hnext := (List.forall_mem_cons.mp hargs).1
      have hstart : ∀ tail, startsIn isBlank
          (join separator ((next :: args).map render) ++ tail) = false := by
        intro tail
        cases args with
        | nil => exact startsIn_isBlank_render hnext tail
        | cons other args =>
          rw [List.map_cons, List.map_cons, join_cons_cons, List.append_assoc]
          exact startsIn_isBlank_render hnext _
      have htail := hseparator.gives.append (ih hargs (by simp)) fun tail _ => hstart tail
      have hall := (gives_render ha).append htail fun tail _ => by
        rw [List.append_assoc]
        exact hseparator.startsIn _
      rw [List.map_cons, List.map_cons, join_cons_cons, List.map_cons, Token.listed_cons (by simp)]
      exact hall.congr (fun _ hc => hc) (by simp)

/-- What may stand behind a list: nothing, or a separator if there are items. -/
def ClosesList (args : List Argument) (closing : Text) : Prop :=
  closing = [] ∨ args ≠ [] ∧ IsSeparator closing

/-- The words of a list of arguments. -/
private theorem hasWords_join (hseparator : IsSeparator separator) (h : ∀ a ∈ args, a.InRange)
    {closing : Text} (hclosing : ClosesList args closing) :
    ∃ extra, (args = [] → extra = false) ∧
      HasWords (join separator (args.map render) ++ closing)
        (Token.listed (args.map fun a => [a.word]) extra) := by
  rcases hclosing with rfl | ⟨hne, hclosing⟩
  · refine ⟨false, fun _ => rfl, ?_⟩
    rw [List.append_nil]
    by_cases hne : args = []
    · subst hne
      exact hasWords_nil.mpr rfl
    · exact (gives_join hseparator h hne).hasWords_iff.mpr ⟨trivial, rfl⟩
  · -- the separator behind the last argument gives the extra comma
    refine ⟨true, fun hnil => absurd hnil hne, ?_⟩
    have hall := (gives_join hseparator h hne).append hclosing.gives fun tail _ =>
      hclosing.startsIn tail
    exact hall.hasWords_iff.mpr ⟨⟨trivial, trivial⟩, by simp [Token.listed]⟩

/-! ### Whole texts -/

/-- **A list of literals is parsed as the arguments.** -/
theorem parseList_join (hseparator : IsSeparator separator) (h : ∀ a ∈ args, a.InRange)
    {closing : Text} (hclosing : ClosesList args closing) :
    (parseList (join separator (args.map render) ++ closing)).result = .ok args := by
  obtain ⟨extra, hextra, hwords⟩ := hasWords_join hseparator h hclosing
  refine Outcome.ofReader_result_eq_ok_iff.mpr ?_
  refine takes_read.readText_commaList_eq_ok_iff.mpr ⟨_, hwords, Token.listedAs_iff.mpr ?_⟩
  refine ⟨_, extra, hextra, ?_, rfl⟩
  rw [List.forall₂_map_left_iff, List.forall₂_same]
  exact fun a ha => ⟨a.word, rfl, ofToken_word (h a ha)⟩

/-- **A literal is parsed as the argument.** -/
theorem parse_literal (h : a.InRange) : (parse a.render).result = .ok a := by
  have hwords := (gives_render h).hasWords_iff.mpr ⟨trivial, rfl⟩
  refine Outcome.ofReader_result_eq_ok_iff.mpr ?_
  exact takes_read.readText_eq_ok_iff.mpr ⟨[a.word], hwords, a.word, rfl, ofToken_word h⟩

end Argument

end MoveText
