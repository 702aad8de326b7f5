import MoveText.Proofs.Argument.Reading
import MoveText.Proofs.TypeTag.Reading

/-!
# Lists and their items

The entry points for lists agree with those for single items. What an item reader takes does not
depend on what follows it, and the commas between items are commas of the text, so a text is read as
a list exactly if it lists texts that are read as the items one by one
(`lists_agree_with_items`). Where the text is cut is up to the lexer: a comma within a byte string
or between type parameters does not separate items.
-/

namespace MoveText

open TokenReader

/-! ### Names -/

/-- The reader of names takes one token, which holds the name. -/
theorem takes_string : Takes string fun words s => words = [⟨.name, some s⟩] where
  advances := advances_string
  sound {tokens rest s} hoccur hread := by
    obtain ⟨token, mid, htoken, hvalue⟩ := bind_eq_ok_iff.mp hread
    obtain ⟨rfl, rfl⟩ := pure_eq_ok_iff.mp hvalue
    obtain ⟨⟨kind, value⟩, _, hnext, hcheck⟩ := bind_eq_ok_iff.mp htoken
    obtain rfl := next_eq_ok_iff.mp hnext
    split_ifs at hcheck with hkind
    · obtain ⟨rfl, rfl⟩ := pure_eq_ok_iff.mp hcheck
      obtain rfl : kind = .name := hkind
      obtain ⟨name, rfl, -⟩ := (hoccur _ List.mem_cons_self).name_value
      exact ⟨_, rfl, rfl⟩
    · exact (fail_eq_ok_iff.mp hcheck).elim
  complete := by
    rintro _ tail s closing rfl - -
    rfl
  starts := by
    rintro _ s rfl
    exact ⟨_, [], rfl, by simp [Token.eof]⟩

/-- A word with any white space around it. -/
def Identifier.IsSpacedWord (s word : Text) : Prop :=
  IsWord word ∧ ∃ before after, s = before ++ (word ++ after) ∧
    (∀ c ∈ before, Text.isBlank c) ∧ ∀ c ∈ after, Text.isBlank c

/-- The names are spelled by themselves, and are what is no keyword. -/
private theorem Token.spells_name_iff {word s : Text} :
    Spells ⟨.name, some s⟩ word ↔ word = s ∧ Identifier.IsWord s := by
  constructor
  · intro h
    cases h with
    | @name c rest hc hrest hk =>
      have hfirst : Text.isNameChar c := Text.isNameChar_iff.mpr (.inr (.inl hc))
      exact ⟨rfl, hc, List.forall_mem_cons.mpr ⟨hfirst, hrest⟩, hk⟩
  · rintro ⟨rfl, hletter, hchars, hk⟩
    cases word with
    | nil => cases hletter
    | cons c rest => exact .name hletter (fun d hd => hchars d (List.mem_cons_of_mem c hd)) hk

/-- A text is read as a name exactly if it is this name but for white space around it. -/
private theorem readText_string_eq_ok_iff {s word : Text} :
    string.readText s = .ok word ↔ Identifier.IsSpacedWord s word := by
  have hkind : Token.isWhitespace ⟨.name, some word⟩ = false := rfl
  rw [takes_string.readText_eq_ok_iff]
  simp only [exists_eq_right, Text.hasWords_singleton_iff hkind, Token.spells_name_iff]
  constructor
  · rintro ⟨before, _, after, hs, hbefore, ⟨rfl, hword⟩, hafter⟩
    exact ⟨hword, before, after, hs, hbefore, hafter⟩
  · rintro ⟨hword, before, after, hs, hbefore, hafter⟩
    exact ⟨before, word, after, hs, hbefore, ⟨rfl, hword⟩, hafter⟩

/-! ### The entry points -/

/-- **Lists that agree with items**: a text is no items exactly if it is white space, and items
exactly if it lists texts that are these items one by one. -/
structure AgreesWithItems {α : Type} (isList : Text → List α → Prop) (isItem : Text → α → Prop) :
    Prop where
  nil_iff (input : Text) : isList input [] ↔ ∀ c ∈ input, Text.isBlank c
  cons_iff (input : Text) (a : α) (items : List α) : isList input (a :: items) ↔
    ∃ texts, input.Lists texts ∧ List.Forall₂ isItem texts (a :: items)

/-- The list of what a reader takes agrees with what it takes of a whole text. -/
theorem TokenReader.Takes.agreesWithItems {α : Type} {item : TokenReader α}
    {R : List Token → α → Prop} (h : Takes item R) :
    AgreesWithItems
      (fun input items =>
        (Outcome.ofReader (commaList item .eof true) input).result = .ok items)
      fun input a => (Outcome.ofReader item input).result = .ok a := by
  simp only [Outcome.ofReader_result_eq_ok_iff]
  exact ⟨fun _ => h.readText_commaList_eq_nil_iff, fun _ _ _ => h.readText_commaList_eq_cons_iff⟩

/-- **The entry points for lists agree with those for items.** Under valid options, the empty list
is read exactly of white space. Items are read exactly of texts that hold, with single commas
between them and perhaps one more comma and white space behind the last, texts of which these items
are read one by one. So it is for type tags, for arguments, and for names, of which one is read of a
word, no keyword, with any white space around it. -/
theorem lists_agree_with_items {options : Option Value} {resolved : Options}
    (hoptions : Options.resolve options = .ok resolved) :
    AgreesWithItems (fun input tags => (TypeTag.parseList options input).result = .ok tags)
      (fun input tag => (TypeTag.parse options input).result = .ok tag) ∧
    AgreesWithItems (fun input args => (Argument.parseList input).result = .ok args)
      (fun input a => (Argument.parse input).result = .ok a) ∧
    AgreesWithItems (fun input names => (Identifier.parseList input).result = .ok names)
      Identifier.IsSpacedWord := by
  refine ⟨?_, Argument.takes_read.agreesWithItems, ?_⟩
  · simp only [TypeTag.parseList, TypeTag.parse, Outcome.underOptions, hoptions]
    exact (TypeTag.takes_read (Options.bounds_of_resolve hoptions).1).agreesWithItems
  · have hname : ∀ s word,
        (Outcome.ofReader string s).result = .ok word ↔ Identifier.IsSpacedWord s word :=
      fun _ _ => Outcome.ofReader_result_eq_ok_iff.trans readText_string_eq_ok_iff
    have hnames := takes_string.agreesWithItems
    simp only [hname] at hnames
    exact hnames

/-- A list of two tags, the second with a comma between its parameters, a list of a byte string that
holds a comma, with one more comma behind it, and a list of one name. -/
theorem lists_agree_with_items_pair :
    let options := some (Options.ofLimit 2)
    Options.resolve options = .ok ⟨2⟩ ∧
      (TypeTag.parseList options "u8,0xA::M::T<u8,bool>".toList).result = .ok [.primitive .u8,
        .struct ⟨Address.padded ['A'], ['M'], ['T']⟩ [.primitive .u8, .primitive .bool]] ∧
      (Argument.parseList "b\"1,2\", ".toList).result = .ok [.bytes [49, 44, 50]] ∧
      (Identifier.parseList "\t a\n".toList).result = .ok [['a']] := by
  have hoptions := Options.resolve_ofLimit (by decide : 1 ≤ 2) (by decide)
  obtain ⟨htags, hargs, hnames⟩ := lists_agree_with_items hoptions
  have hparts : ∀ part ∈ [([⟨.keyword (.primitive .u8), none⟩], .primitive .u8),
      ([⟨.keyword (.primitive .bool), none⟩], .primitive .bool)],
      TypeTag.Derives 2 1 part.1 part.2 :=
    List.forall_mem_cons.mpr ⟨.primitive (by decide) .u8,
      List.forall_mem_singleton.mpr (.primitive (by decide) .bool)⟩
  have hstruct : TypeTag.Derives 2 0 _ (.struct ⟨Address.padded ['A'], ['M'], ['T']⟩ _) :=
    .struct (by decide) (List.cons_ne_nil 'A' []) (List.all_eq_true.mp (by decide)) (by decide)
      (.listed (by simp) false) hparts
  have htag : ∀ {input tokens tag}, Token.ofText input = .ok tokens →
      TypeTag.Derives 2 0 (tokens.filter fun t => !t.isWhitespace) tag →
      (TypeTag.parse (some (Options.ofLimit 2)) input).result = .ok tag := fun htokens hderives =>
    (TypeTag.parse_eq_ok_iff (by decide) (by decide)).mpr ⟨_, htokens, hderives⟩
  refine ⟨hoptions, (htags.cons_iff _ _ _).mpr ⟨["u8".toList, "0xA::M::T<u8,bool>".toList], ?_, ?_⟩,
    (hargs.cons_iff _ _ _).mpr ⟨["b\"1,2\"".toList], ?_, ?_⟩,
    (hnames.cons_iff _ _ _).mpr ⟨["\t a\n".toList], ?_, ?_⟩⟩
  · exact ⟨[], .inl rfl, rfl⟩
  · exact .cons (htag rfl (.primitive (by decide) .u8)) (.cons (htag rfl hstruct) .nil)
  · exact ⟨[',', ' '], .inr ⟨[' '], rfl, List.all_eq_true.mp (by decide)⟩, rfl⟩
  · exact .cons rfl .nil
  · exact ⟨[], .inl rfl, rfl⟩
  · refine .cons ⟨⟨rfl, List.all_eq_true.mp (by decide), ?_⟩, ?_⟩ .nil
    · exact Keyword.ofSpelling?_eq_none_iff.mp rfl
    · exact ⟨['\t', ' '], ['\n'], rfl, List.all_eq_true.mp (by decide),
        List.all_eq_true.mp (by decide)⟩

end MoveText
