import MoveText.ForMathlib
import MoveText.Proofs.Parse
import MoveText.Proofs.Token.CommaList
import MoveText.Proofs.Token.Pieces

/-!
# Readers of items

`TokenReader.Takes item R` says all that a comma list has to know of its items: on the tokens of a
text, the reader takes stretches with the property `R`, and takes every such stretch unless a
bracket opens behind it. Then a whole text is read as an item exactly if its words are such a
stretch, and as a comma list exactly if they are a list of such stretches, `Token.ListedAs R`
(`Takes.readText_eq_ok_iff` and `Takes.readText_commaList_eq_ok_iff`).

The commas between the stretches are commas of the text, so the text is cut where they stand into
texts of items: `Takes.readText_commaList_eq_cons_iff` compares the list that is read with the items
that are read of these texts one by one.
-/

namespace MoveText

/-- Words that are listed: stretches for the values found, with commas between them, and perhaps one
more comma behind the last. -/
def Token.ListedAs {α : Type} (R : List Token → α → Prop) (words : List Token) (found : List α) :
    Prop :=
  ∃ (parts : List (List Token × α)) (extra : Bool), (parts = [] → extra = false) ∧
    (∀ part ∈ parts, R part.1 part.2) ∧ words = listed (parts.map Prod.fst) extra ∧
    found = parts.map Prod.snd

/-- Words are listed exactly if they are made of stretches for the values one by one. -/
theorem Token.listedAs_iff {α : Type} {R : List Token → α → Prop} {words : List Token}
    {found : List α} : ListedAs R words found ↔ ∃ stretches extra,
      (found = [] → extra = false) ∧ List.Forall₂ R stretches found ∧
        words = listed stretches extra := by
  constructor
  · rintro ⟨parts, extra, hextra, hparts, rfl, rfl⟩
    refine ⟨parts.map Prod.fst, extra, fun hnil => hextra (List.map_eq_nil_iff.mp hnil), ?_, rfl⟩
    rw [List.forall₂_map_left_iff, List.forall₂_map_right_iff, List.forall₂_same]
    exact hparts
  · rintro ⟨stretches, extra, hextra, hstretches, rfl⟩
    have hlength := hstretches.length_eq
    refine ⟨stretches.zip found, extra, fun hnil => hextra ?_, fun part hpart => ?_, ?_, ?_⟩
    · rw [← List.map_snd_zip hlength.ge, hnil]
      rfl
    · exact List.forall₂_zip hstretches hpart
    · rw [List.map_fst_zip hlength.le]
    · rw [List.map_snd_zip hlength.ge]

/-! ### Texts in a list -/

/-- **A text lists texts**: it holds them with single commas between them, and behind the last of
them nothing, or one more comma and white space. -/
def Text.Lists (s : Text) (texts : List Text) : Prop :=
  ∃ closing, (closing = [] ∨ ∃ blanks, closing = ',' :: blanks ∧ ∀ c ∈ blanks, isBlank c) ∧
    s = join [','] texts ++ closing

private theorem Text.lists_singleton_iff {s text : Text} : s.Lists [text] ↔
    s = text ∨ ∃ blanks, s = text ++ ',' :: blanks ∧ ∀ c ∈ blanks, isBlank c := by
  constructor
  · rintro ⟨closing, rfl | ⟨blanks, rfl, hblanks⟩, rfl⟩
    · exact .inl (List.append_nil text)
    · exact .inr ⟨blanks, rfl, hblanks⟩
  · rintro (rfl | ⟨blanks, rfl, hblanks⟩)
    · exact ⟨[], .inl rfl, (List.append_nil s).symm⟩
    · exact ⟨_, .inr ⟨blanks, rfl, hblanks⟩, rfl⟩

private theorem Text.lists_cons_iff {s text : Text} {texts : List Text} (hne : texts ≠ []) :
    s.Lists (text :: texts) ↔ ∃ back : Text, s = text ++ ',' :: back ∧ back.Lists texts := by
  obtain ⟨next, texts, rfl⟩ := List.exists_cons_of_ne_nil hne
  constructor
  · rintro ⟨closing, hclosing, rfl⟩
    exact ⟨join [','] (next :: texts) ++ closing, by simp [join_cons_cons], closing, hclosing, rfl⟩
  · rintro ⟨_, rfl, closing, hclosing, rfl⟩
    exact ⟨closing, hclosing, by simp [join_cons_cons]⟩

/-- **The words of a text are listed as the text lists texts with these words.** -/
theorem Text.hasWords_listed_iff {s : Text} {stretches : List (List Token)} (hne : stretches ≠ []) :
    (∃ extra, HasWords s (Token.listed stretches extra)) ↔
      ∃ texts, s.Lists texts ∧ List.Forall₂ HasWords texts stretches := by
  induction stretches generalizing s with
  | nil => exact absurd rfl hne
  | cons words stretches ih =>
    by_cases hnil : stretches = []
    · subst hnil
      simp only [Token.listed_singleton, Bool.exists_bool, List.forall₂_cons_right_iff,
        List.forall₂_nil_right_iff, Bool.false_eq_true, if_false, if_true, List.append_nil,
        hasWords_append_comma_iff, hasWords_nil_iff]
      constructor
      · rintro (hwords | ⟨text, blanks, rfl, hwords, hblanks⟩)
        · exact ⟨[s], lists_singleton_iff.mpr (.inl rfl), s, [], hwords, rfl, rfl⟩
        · exact ⟨[text], lists_singleton_iff.mpr (.inr ⟨blanks, rfl, hblanks⟩), text, [], hwords,
            rfl, rfl⟩
      · rintro ⟨_, hlists, text, _, hwords, rfl, rfl⟩
        rcases lists_singleton_iff.mp hlists with rfl | ⟨blanks, rfl, hblanks⟩
        · exact .inl hwords
        · exact .inr ⟨text, blanks, rfl, hwords, hblanks⟩
    · simp only [Token.listed_cons hnil, hasWords_append_comma_iff]
      constructor
      · rintro ⟨extra, text, back, rfl, hwords, hback⟩
        obtain ⟨texts, hlists, htexts⟩ := (ih hnil).mp ⟨extra, hback⟩
        have hsome : texts ≠ [] := htexts.ne_nil_iff.mpr hnil
        exact ⟨text :: texts, (lists_cons_iff hsome).mpr ⟨back, rfl, hlists⟩, .cons hwords htexts⟩
      · rintro ⟨_, hlists, hall⟩
        obtain ⟨text, texts, hwords, htexts, rfl⟩ := List.forall₂_cons_right_iff.mp hall
        have hsome : texts ≠ [] := htexts.ne_nil_iff.mpr hnil
        obtain ⟨back, rfl, hrest⟩ := (lists_cons_iff hsome).mp hlists
        obtain ⟨extra, hback⟩ := (ih hnil).mpr ⟨texts, hrest, htexts⟩
        exact ⟨extra, text, back, rfl, hwords, hback⟩

namespace TokenReader

variable {α : Type} {item : TokenReader α} {R : List Token → α → Prop}

/-- A text is turned down for the reason for which the reader stops on its words. -/
theorem readText_of_error {input : Text} {words rest : List Token} {rejection : Rejection}
    (hwords : input.HasWords words) (hread : item (words ++ [.eof]) = (.error rejection, rest)) :
    item.readText input = .error rejection := by
  rw [readText, hwords.wordsOfText_eq]
  exact congrArg Prod.fst (bind_of_error hread)

/-- **A reader takes stretches** of tokens: of a text it takes no others, and all that no bracket
follows. -/
structure Takes (item : TokenReader α) (R : List Token → α → Prop) : Prop where
  advances : Advances item
  sound {tokens rest : List Token} {a : α} (hoccur : ∀ t ∈ tokens, t.Occurs)
    (hread : item tokens = (.ok a, rest)) : ∃ words, tokens = words ++ rest ∧ R words a
  complete {words tail : List Token} {a : α} {closing : Token} (hR : R words a)
    (hoccur : ∀ t ∈ words, t.Occurs) (hclosing : closing ≠ .lt) :
    item (words ++ closing :: tail) = (.ok a, closing :: tail)
  starts {words : List Token} {a : α} (hR : R words a) : ∃ t rest, words = t :: rest ∧ t ≠ .eof

namespace Takes

variable {words : List Token} {a : α} {found : List α} {input : Text}

/-! ### All tokens of a text -/

/-- All tokens but the end are taken exactly if they are one stretch. -/
theorem eq_ok_iff (h : Takes item R) (hoccur : ∀ t ∈ words, t.Occurs) :
    item (words ++ [.eof]) = (.ok a, [.eof]) ↔ R words a := by
  constructor
  · intro hread
    obtain ⟨taken, hsplit, hR⟩ := h.sound (Token.occurs_append_eof hoccur) hread
    rwa [List.append_cancel_right hsplit]
  · exact fun hR => h.complete hR hoccur (by decide)

/-- A comma list takes all tokens but the end exactly if they are listed. -/
theorem commaList_eq_ok_iff (h : Takes item R) (hoccur : ∀ t ∈ words, t.Occurs) :
    commaList item .eof true (words ++ [.eof]) = (.ok found, [.eof]) ↔
      Token.ListedAs R words found := by
  rw [TokenReader.commaList_eq_ok_iff h.advances (by decide)]
  constructor
  · rintro (⟨-, rfl, hend⟩ | ⟨-, hitems⟩)
    · have hnil : words = [] := by simpa using hend
      exact ⟨[], false, fun _ => rfl, by simp, hnil, rfl⟩
    · obtain ⟨parts, extra, hne, hparts, rfl, -, hsplit, -⟩ :=
        hitems.exists_parts (fun _ _ _ => h.sound) (Token.occurs_append_eof hoccur)
      exact ⟨parts, extra, fun hnil => absurd hnil hne, hparts,
        List.append_cancel_right hsplit, rfl⟩
  · rintro ⟨parts, extra, hextra, hparts, rfl, rfl⟩
    by_cases hnil : parts = []
    · subst hnil
      obtain rfl := hextra rfl
      exact .inl ⟨rfl, rfl, rfl⟩
    · have hhead : ∀ p ∈ parts, ∃ t words, p.1 = t :: words ∧ t ≠ .eof :=
        fun p hp => h.starts (hparts p hp)
      refine .inr ⟨Token.head?_listed_ne (by simpa using hnil) (by simpa using hhead) _, ?_⟩
      refine items_listed hnil (fun _ => rfl) hhead fun p hp t others ht => ?_
      refine h.complete (hparts p hp) (fun s hs => ?_) ?_
      · exact hoccur s (Token.mem_listed (List.mem_map_of_mem hp) hs)
      · rcases ht with rfl | rfl <;> decide

/-! ### Whole texts -/

/-- A text is read as an item exactly if its words are one stretch. -/
theorem readText_eq_ok_iff (h : Takes item R) :
    item.readText input = .ok a ↔ ∃ words, input.HasWords words ∧ R words a := by
  rw [TokenReader.readText_eq_ok_iff h.advances]
  constructor
  · rintro ⟨tokens, htokens, hread⟩
    exact ⟨_, ⟨tokens, htokens, rfl⟩, (h.eq_ok_iff (Token.occurs_of_ofText htokens)).mp hread⟩
  · rintro ⟨_, ⟨tokens, htokens, rfl⟩, hR⟩
    exact ⟨tokens, htokens, (h.eq_ok_iff (Token.occurs_of_ofText htokens)).mpr hR⟩

/-- A text is read as a comma list exactly if its words are listed. -/
theorem readText_commaList_eq_ok_iff (h : Takes item R) :
    (commaList item .eof true).readText input = .ok found ↔
      ∃ words, input.HasWords words ∧ Token.ListedAs R words found := by
  rw [TokenReader.readText_eq_ok_iff (advances_commaList h.advances .eof true)]
  constructor
  · rintro ⟨tokens, htokens, hread⟩
    exact ⟨_, ⟨tokens, htokens, rfl⟩,
      (h.commaList_eq_ok_iff (Token.occurs_of_ofText htokens)).mp hread⟩
  · rintro ⟨_, ⟨tokens, htokens, rfl⟩, hlisted⟩
    exact ⟨tokens, htokens, (h.commaList_eq_ok_iff (Token.occurs_of_ofText htokens)).mpr hlisted⟩

/-! ### Items one by one -/

/-- No items are read exactly of white space. -/
theorem readText_commaList_eq_nil_iff (h : Takes item R) :
    (commaList item .eof true).readText input = .ok [] ↔ ∀ c ∈ input, Text.isBlank c := by
  rw [h.readText_commaList_eq_ok_iff, ← Text.hasWords_nil_iff]
  constructor
  · rintro ⟨words, hwords, hlisted⟩
    obtain ⟨stretches, extra, hextra, hstretches, rfl⟩ := Token.listedAs_iff.mp hlisted
    obtain rfl := List.forall₂_nil_right_iff.mp hstretches
    obtain rfl := hextra rfl
    exact hwords
  · exact fun hwords => ⟨[], hwords, [], false, fun _ => rfl, by simp, rfl, rfl⟩

/-- **Items are read of a text exactly if it lists texts of which they are read one by one.** -/
theorem readText_commaList_eq_cons_iff (h : Takes item R) :
    (commaList item .eof true).readText input = .ok (a :: found) ↔ ∃ texts, input.Lists texts ∧
      List.Forall₂ (fun s b => item.readText s = .ok b) texts (a :: found) := by
  simp only [h.readText_commaList_eq_ok_iff, h.readText_eq_ok_iff, List.forall₂_exists_iff]
  constructor
  · rintro ⟨words, hwords, hlisted⟩
    obtain ⟨stretches, extra, -, hstretches, rfl⟩ := Token.listedAs_iff.mp hlisted
    have hne : stretches ≠ [] := hstretches.ne_nil_iff.mpr (List.cons_ne_nil a found)
    obtain ⟨texts, hlists, htexts⟩ := (Text.hasWords_listed_iff hne).mp ⟨extra, hwords⟩
    exact ⟨texts, hlists, stretches, htexts, hstretches⟩
  · rintro ⟨texts, hlists, stretches, htexts, hstretches⟩
    have hne : stretches ≠ [] := hstretches.ne_nil_iff.mpr (List.cons_ne_nil a found)
    obtain ⟨extra, hwords⟩ := (Text.hasWords_listed_iff hne).mpr ⟨texts, hlists, htexts⟩
    exact ⟨_, hwords, Token.listedAs_iff.mpr ⟨stretches, extra, by simp, hstretches, rfl⟩⟩

end Takes

end TokenReader

end MoveText
