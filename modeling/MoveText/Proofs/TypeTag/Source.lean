import MoveText.Proofs.Token.Separated
import MoveText.Proofs.TypeTag.RoundTrip

/-!
# Rendering a parsed tag gives its source

A tag can be written in many ways: with white space, with zeros in front of addresses and large
digits, with a comma behind the last parameter, and with empty brackets where there are no
parameters. Of these freedoms `Text.IsCanonical` leaves the white space only. A source that is
parsed is given back by rendering the tag, up to white space, exactly if it is canonical
(`TypeTag.render_eq_source_iff`).

The comparison is one of pieces, since without its white space a source is cut into the same pieces
as before. The tokens of the pieces are those that the tag is written with exactly if they are
canonical (`TypeTag.Derives.eq_words_iff`).
-/

namespace MoveText

/-! ### Canonical tokens -/

namespace Token

/-- No bracket closes right behind a comma, nor right behind where it opens. -/
def CloseNeatly (words : List Token) : Prop :=
  words.IsChain fun t next => next = .gt → t ≠ .comma ∧ t ≠ .lt

/-- **Canonical tokens**: addresses are short, and brackets close neatly. -/
structure AreCanonical (words : List Token) : Prop where
  addresses : ∀ t ∈ words, t.kind = .address → Address.IsShort t.text
  brackets : CloseNeatly words

namespace AreCanonical

variable {words others : List Token}

/-- Canonical tokens are so in part. -/
private theorem of_isInfix (h : AreCanonical others) (hinside : words <:+: others) :
    AreCanonical words :=
  ⟨fun t ht => h.addresses t (hinside.subset ht), List.IsChain.infix h.brackets hinside⟩

private theorem not_isInfix (h : AreCanonical words) {t : Token} (ht : t = .comma ∨ t = .lt) :
    ¬ [t, .gt] <:+: words := by
  intro hinside
  obtain ⟨hcomma, hlt⟩ := List.isChain_pair.mp (h.of_isInfix hinside).brackets rfl
  exact ht.elim hcomma hlt

theorem cons {t : Token} (haddress : t.kind = .address → Address.IsShort t.text)
    (hnext : t = .comma ∨ t = .lt → words.head? ≠ some .gt) (h : AreCanonical words) :
    AreCanonical (t :: words) := by
  refine ⟨List.forall_mem_cons.mpr ⟨haddress, h.addresses⟩,
    List.isChain_cons.mpr ⟨?_, h.brackets⟩⟩
  rintro _ hhead rfl
  exact ⟨fun ht => hnext (.inl ht) hhead, fun ht => hnext (.inr ht) hhead⟩

theorem append (h : AreCanonical words) (h' : AreCanonical others)
    (hnext : others.head? ≠ some .gt) : AreCanonical (words ++ others) := by
  refine ⟨List.forall_mem_append.mpr ⟨h.addresses, h'.addresses⟩,
    h.brackets.append h'.brackets ?_⟩
  rintro _ - _ hhead rfl
  exact absurd hhead hnext

end AreCanonical

/-- Tokens that may stand before a comma and a closing bracket, and behind a comma and an opening
one. -/
structure FitBrackets (words : List Token) : Prop where
  opens : ∃ t rest, words = t :: rest ∧ t ≠ .gt
  closes : AreCanonical (words ++ [.gt])

namespace FitBrackets

variable {words others : List Token}

private theorem areCanonical (h : FitBrackets words) : AreCanonical words :=
  h.closes.of_isInfix (List.prefix_append ..).isInfix

private theorem head?_append_ne (h : FitBrackets words) (rest : List Token) :
    (words ++ rest).head? ≠ some .gt := by
  obtain ⟨t, words, rfl, ht⟩ := h.opens
  simpa using ht

/-- The brackets that such tokens fit are canonical. -/
theorem bracketed (h : FitBrackets words) : AreCanonical (.lt :: (words ++ [.gt])) :=
  h.closes.cons (by simp [lt]) fun _ => h.head?_append_ne _

/-- Behind these brackets others may close. -/
private theorem bracketed_append_gt (h : FitBrackets words) :
    AreCanonical (.lt :: (words ++ [.gt]) ++ [.gt]) := by
  refine ⟨List.forall_mem_append.mpr ⟨h.bracketed.addresses, by simp [gt]⟩,
    h.bracketed.brackets.append (.singleton _) ?_⟩
  have hlast : (lt :: words ++ [gt]).getLast? = some gt := List.getLast?_concat
  rw [← List.cons_append, hlast]
  rintro _ ⟨⟩ _ - -
  simp [gt, comma, lt]

private theorem append_comma_cons (h : FitBrackets words) (h' : FitBrackets others) :
    FitBrackets (words ++ .comma :: others) := by
  obtain ⟨t, rest, heq, ht⟩ := h.opens
  refine ⟨⟨t, rest ++ .comma :: others, by rw [heq]; rfl, ht⟩, ?_⟩
  rw [List.append_assoc, List.cons_append]
  have hothers := h'.closes.cons (t := .comma) (by simp [comma]) fun _ => h'.head?_append_ne _
  exact h.areCanonical.append hothers (by simp [comma, gt])

theorem listed {stretches : List (List Token)} (hne : stretches ≠ [])
    (h : ∀ words ∈ stretches, FitBrackets words) : FitBrackets (Token.listed stretches false) := by
  induction stretches with
  | nil => exact absurd rfl hne
  | cons words stretches ih =>
    obtain ⟨hwords, hothers⟩ := List.forall_mem_cons.mp h
    by_cases hnil : stretches = []
    · simpa [hnil, listed_singleton] using hwords
    · rw [listed_cons hnil]
      exact hwords.append_comma_cons (ih hnil hothers)

end FitBrackets

/-- Canonical brackets have no extra comma, and there are none around nothing. -/
private theorem Bracketed.eq_bracketed {stretches : List (List Token)} {brackets : List Token}
    (h : Bracketed stretches brackets) (hcanon : AreCanonical brackets) :
    brackets = bracketed stretches := by
  rcases h with _ | _ | ⟨hne, _ | _⟩
  · rfl
  · exact absurd (List.infix_refl _) (hcanon.not_isInfix (.inr rfl))
  · obtain ⟨stretch, stretches, rfl⟩ := List.exists_cons_of_ne_nil hne
    rfl
  · refine absurd ?_ (hcanon.not_isInfix (.inl rfl))
    exact ⟨.lt :: [Token.comma].intercalate stretches, [], by simp [Token.listed]⟩

/-- A word is spelled as a keyword or a name, and so is no mark. -/
private theorem ofWord_ne {word : Text} {t : Token} (ht : t.kind.isMark) : ofWord word ≠ t := by
  rintro rfl
  rw [ofWord] at ht
  split at ht <;> cases ht

private theorem kind_ofWord_ne_address (word : Text) : (ofWord word).kind ≠ .address := by
  rw [ofWord]
  split <;> simp

end Token

namespace TypeTag

open Token

/-! ### The tokens that a tag is written with -/

variable {limit depth : Nat} {words : List Token} {tag : TypeTag}

/-- **The words of a tag are canonical**, and fit brackets, if addresses are written short. -/
theorem fitBrackets_words (hwf : tag.WellFormed) : FitBrackets (tag.words .short) := by
  refine ⟨exists_cons_words .short tag, ?_⟩
  induction tag using TypeTag.induction with
  | primitive type => exact ⟨by simp [words, gt], by simp [words, CloseNeatly, comma, lt]⟩
  | vector element ih =>
    have helement : FitBrackets (element.words .short) :=
      ⟨exists_cons_words .short element, ih (AllNames.vector_iff.mp hwf)⟩
    rw [words]
    exact helement.bracketed_append_gt.cons (by simp) (by simp [comma, lt])
  | struct name params ih =>
    obtain ⟨hname, hparams⟩ := AllNames.struct_iff.mp hwf
    -- the closing bracket behind the type may follow its name, or else its own brackets
    have hbrackets : AreCanonical (bracketed (params.map fun p => p.words .short) ++ [.gt]) := by
      cases params with
      | nil => exact ⟨by simp [bracketed, gt], .singleton _⟩
      | cons param params =>
        have hlisted := FitBrackets.listed (List.cons_ne_nil _ _)
          (List.forall_mem_map.mpr fun p hp =>
            (⟨exists_cons_words .short p, ih p hp (hparams p hp)⟩ : FitBrackets (p.words .short)))
        exact hlisted.bracketed_append_gt
    have hword : ∀ {word : Text} {rest : List Token}, AreCanonical rest →
        AreCanonical (ofWord word :: rest) := fun hrest =>
      hrest.cons (fun haddress => absurd haddress (kind_ofWord_ne_address _))
        fun hmark => (hmark.elim (ofWord_ne rfl) (ofWord_ne rfl)).elim
    have hcolons : ∀ {rest : List Token}, AreCanonical rest → AreCanonical (.colonColon :: rest) :=
      fun hrest => hrest.cons (by simp [colonColon]) (by simp [colonColon, comma, lt])
    rw [words]
    exact (hcolons (hword (hcolons (hword hbrackets)))).cons
      (fun _ => Address.isShort_shorten hname.address) (by simp [comma, lt])

/-- **When the tokens of a tag are those that it is written with.** What tokens of a text derive is
written with the same tokens, if addresses are written short, exactly if they are canonical. -/
theorem Derives.eq_words_iff (h : Derives limit depth words tag) (hwords : ∀ t ∈ words, t.Occurs) :
    words = tag.words .short ↔ AreCanonical words := by
  refine ⟨fun heq => heq ▸ (fitBrackets_words (h.wellFormed hwords)).areCanonical, fun hcanon => ?_⟩
  induction h with
  | primitive => rw [TypeTag.words]
  | @vector _ words element _ _ ih =>
    have hinside : words <:+: ⟨.keyword .vector, none⟩ :: .lt :: (words ++ [.gt]) :=
      ⟨[⟨.keyword .vector, none⟩, .lt], [.gt], rfl⟩
    rw [TypeTag.words, ← ih (fun t ht => hwords t (hinside.subset ht)) (hcanon.of_isInfix hinside)]
  | @struct _ digits moduleName typeName parts brackets _ _ _ hlength hbrackets _ ih =>
    have haddress : TagStyle.short.address (Address.padded digits) = '0' :: 'x' :: digits :=
      Address.shorten_padded (hcanon.addresses _ List.mem_cons_self rfl) hlength
    simp only [List.forall_mem_cons] at hwords
    obtain ⟨-, -, hmodule, -, htype, hwords⟩ := hwords
    have hmodule := Token.ofWord_eq_name_iff.mpr ⟨rfl, hmodule.isPlain.2⟩
    have htype := Token.ofWord_eq_name_iff.mpr ⟨rfl, htype.isPlain.2⟩
    have hcanon := hcanon.of_isInfix (List.suffix_append [_, _, _, _, _] brackets).isInfix
    -- the parameters are written with their own tokens, each in its place
    have hparts : parts.map Prod.fst = (parts.map Prod.snd).map fun p => p.words .short := by
      rw [List.map_map]
      refine List.map_congr_left fun part hpart => ?_
      have hinside := hbrackets.isInfix (List.mem_map_of_mem hpart)
      exact ih part hpart (fun t ht => hwords t (hinside.subset ht)) (hcanon.of_isInfix hinside)
    rw [hbrackets.eq_bracketed hcanon, hparts]
    simp only [TypeTag.words, StructName.words, haddress, hmodule, htype, List.cons_append,
      List.nil_append]

end TypeTag

/-! ### Rendered tags without their white space -/

section Rendered

open Text

variable {style : TagStyle}

private theorem StructName.withoutBlanks_render (style : TagStyle) {name : StructName}
    (h : name.WellFormed) :
    (name.render style).withoutBlanks = (name.words style).flatMap Token.plainSpelling := by
  obtain ⟨digits, haddress, -, hdigits, -, -⟩ := style.exists_address h.address
  have hliteral : ∀ c ∈ style.address name.address, isBlank c = false := by
    rw [haddress]
    exact List.forall_mem_cons.mpr ⟨rfl, List.forall_mem_cons.mpr ⟨rfl, fun c hc =>
      isBlank_of_isNameChar (isNameChar_of_isHexDigit (hdigits c hc))⟩⟩
  have hcolons : ∀ {s : Text}, Identifier.isValid s → ∀ c ∈ ':' :: ':' :: s, isBlank c = false :=
    fun hs => List.forall_mem_cons.mpr ⟨rfl, List.forall_mem_cons.mpr ⟨rfl, fun c hc =>
      isBlank_of_isNameChar (Identifier.isNameChar_of_isValid hs c hc)⟩⟩
  rw [render, withoutBlanks_append, withoutBlanks_append, withoutBlanks_eq_self hliteral,
    withoutBlanks_eq_self (hcolons h.moduleName), withoutBlanks_eq_self (hcolons h.typeName)]
  simp [words]

private theorem TagStyle.IsCommaSeparated.withoutBlanks (h : style.IsCommaSeparated) :
    style.separator.withoutBlanks = [','] := by
  obtain ⟨before, after, heq, hbefore, hafter⟩ := h
  rw [heq, withoutBlanks_append, withoutBlanks_eq_nil hbefore]
  exact congrArg (',' :: ·) (withoutBlanks_eq_nil hafter)

namespace TypeTag

private theorem withoutBlanks_renderMore (hstyle : style.IsCommaSeparated) {params : List TypeTag}
    {param : TypeTag} (h : ∀ p ∈ param :: params,
      (p.render style).withoutBlanks = (p.words style).flatMap Token.plainSpelling) :
    (param.render style ++ renderMore style params).withoutBlanks =
      (Token.listed ((param :: params).map fun p => p.words style) false).flatMap
        Token.plainSpelling := by
  obtain ⟨hparam, hparams⟩ := List.forall_mem_cons.mp h
  induction params generalizing param with
  | nil => simpa [renderMore, Token.listed_singleton] using hparam
  | cons next params ih =>
    obtain ⟨hnext, hothers⟩ := List.forall_mem_cons.mp hparams
    have htail := ih hparams hnext hothers
    rw [List.map_cons, Token.listed_cons (by simp), List.flatMap_append, List.flatMap_cons,
      ← htail, ← hparam, renderMore, List.append_assoc, withoutBlanks_append, withoutBlanks_append,
      hstyle.withoutBlanks, Token.plainSpelling_comma]

/-- **A rendered tag without its white space** is the plain spelling of its words. -/
theorem withoutBlanks_render (hstyle : style.IsCommaSeparated) {tag : TypeTag}
    (h : tag.WellFormed) :
    (tag.render style).withoutBlanks = (tag.words style).flatMap Token.plainSpelling := by
  -- brackets around anything stay
  have hbrackets : ∀ s : Text,
      withoutBlanks ('<' :: (s ++ ['>'])) = '<' :: (s.withoutBlanks ++ ['>']) := fun s =>
    congrArg ('<' :: ·) (withoutBlanks_append s ['>'])
  induction tag using TypeTag.induction with
  | primitive type =>
    rw [render, words]
    cases type <;> rfl
  | vector element ih =>
    have hlabel : Keyword.vector.spelling.withoutBlanks = Keyword.vector.spelling := rfl
    rw [render_vector, withoutBlanks_append, hbrackets, hlabel, ih (AllNames.vector_iff.mp h),
      words]
    simp
  | struct name params ih =>
    obtain ⟨hname, hparams⟩ := AllNames.struct_iff.mp h
    rw [render_struct, words, withoutBlanks_append, List.flatMap_append,
      StructName.withoutBlanks_render style hname]
    cases params with
    | nil => rfl
    | cons param params =>
      have hmore := withoutBlanks_renderMore hstyle fun p hp => ih p hp (hparams p hp)
      have hparams : renderParams style (param :: params) =
          '<' :: ((param.render style ++ renderMore style params) ++ ['>']) := rfl
      rw [hparams, hbrackets, hmore]
      simp [Token.bracketed]

end TypeTag

end Rendered

/-! ### Sources -/

namespace Text

/-- **A canonical source**: all addresses are short, no list of type parameters ends in a comma, and
no brackets are empty. White space may stand anywhere. -/
def IsCanonical (s : Text) : Prop :=
  ∃ pieces, Cut s pieces ∧
    (∀ piece ∈ pieces, piece.1.kind = .address → Address.IsShort piece.2) ∧
    Token.CloseNeatly ((solidPieces pieces).map Prod.fst)

variable {s : Text} {pieces : List (Token × Text)}

/-- A source of spaced tokens is canonical if its tokens are, and are spelled plainly. -/
private theorem Cut.isCanonical_iff (h : Cut s pieces)
    (hspaced : Token.IsSpaced ((solidPieces pieces).map Prod.fst)) :
    s.IsCanonical ↔ Token.AreCanonical ((solidPieces pieces).map Prod.fst) ∧
      ∀ piece ∈ solidPieces pieces, piece.2 = piece.1.plainSpelling := by
  have hspells : ∀ piece ∈ solidPieces pieces, piece.1.Spells piece.2 := fun piece hpiece =>
    h.spells_of_mem (List.mem_filter.mp hpiece).1
  constructor
  · rintro ⟨pieces', hcut, haddresses, hbrackets⟩
    obtain rfl := hcut.unique h
    have hshort : ∀ piece ∈ solidPieces pieces', piece.1.kind = .address →
        piece.2 = piece.1.plainSpelling ∧ Address.IsShort piece.1.text := fun piece hpiece hkind =>
      ((hspells piece hpiece).isShort_iff hkind).mp
        (haddresses piece (List.mem_filter.mp hpiece).1 hkind)
    refine ⟨⟨List.forall_mem_map.mpr fun piece hpiece hkind => (hshort piece hpiece hkind).2,
      hbrackets⟩, fun piece hpiece => ?_⟩
    have hkind := hspaced.standsInTags _ (List.mem_map_of_mem hpiece)
    rcases (hspells piece hpiece).eq_or_address hkind with hplain | ⟨haddress, -⟩
    · exact hplain
    · exact (hshort piece hpiece haddress).1
  · rintro ⟨hcanon, hplain⟩
    refine ⟨pieces, h, fun piece hpiece hkind => ?_, hcanon.brackets⟩
    have hmem : piece ∈ solidPieces pieces := by
      simp [solidPieces, hpiece, Token.isWhitespace, hkind]
    exact ((hspells piece hmem).isShort_iff hkind).mpr
      ⟨hplain piece hmem, hcanon.addresses _ (List.mem_map_of_mem hmem) hkind⟩

end Text

/-- Brackets with spaced parameters may follow spaced tokens. -/
private theorem Token.IsSpaced.append_brackets {words brackets : List Token}
    {stretches : List (List Token)} (hwords : IsSpaced words)
    (hbrackets : Bracketed stretches brackets)
    (hstretches : ∀ stretch ∈ stretches, IsSpaced stretch) : IsSpaced (words ++ brackets) := by
  rcases hbrackets with _ | _ | ⟨-, extra⟩
  · simpa using hwords
  · exact hwords.append_cons rfl (isSpaced_singleton rfl)
  · exact hwords.append_cons rfl ((IsSpaced.listed extra hstretches).append_cons rfl isSpaced_nil)

namespace TypeTag

open Text

variable {options : Option Value} {input : Text} {tag : TypeTag}

/-- The tokens of a tag need no white space between them. -/
private theorem Derives.isSpaced {limit depth : Nat} {words : List Token}
    (h : Derives limit depth words tag) : Token.IsSpaced words := by
  induction h with
  | primitive => exact Token.isSpaced_singleton rfl
  | vector _ _ ih => exact .cons_cons rfl rfl (ih.append_cons rfl Token.isSpaced_nil)
  | @struct _ _ _ typeName _ _ _ _ _ _ hbrackets _ ih =>
    have hname : Token.IsSpaced [⟨.name, some typeName⟩] := Token.isSpaced_singleton rfl
    have hmodule := hname.append_brackets hbrackets (List.forall_mem_map.mpr ih)
    exact .cons_cons rfl rfl (.cons_cons rfl rfl hmodule)

/-- A rendered tag with plain names is, without its white space, cut into its words. -/
private theorem cut_withoutBlanks_render {style : TagStyle} (hstyle : style.IsCommaSeparated)
    (hwf : tag.WellFormed) (hplain : tag.AllNames StructName.IsPlain) :
    Cut (tag.render style).withoutBlanks (plainPieces (tag.words style)) := by
  obtain ⟨tokens, htokens, hwords⟩ := (hasWords_render_iff hstyle hwf).mpr
    ⟨hplain.imp fun _ => StructName.IsPlain.startsWithLetters, rfl⟩
  have hspells : ∀ t ∈ tag.words style, ∃ word, t.Spells word := by
    rw [← hwords]
    exact fun t ht => Token.exists_spells_of_ofText htokens (List.mem_filter.mp ht).1
  have hderives : Derives (tag.depth + 1) 0 (tag.words style) tag :=
    derives_words hwf hplain (by omega)
  rw [withoutBlanks_render hstyle hwf]
  exact cut_plainPieces hspells hderives.isSpaced

private theorem withoutBlanks_render_eq_iff (h : (parse options input).result = .ok tag) :
    (tag.render .short).withoutBlanks = input.withoutBlanks ↔ input.IsCanonical := by
  obtain ⟨limit, hleast, hgreatest, hparse⟩ := exists_limit_of_parse h
  obtain ⟨hwf, -, hplain⟩ := image_of_parse hleast hgreatest hparse
  obtain ⟨tokens, htokens, hderives⟩ := (parse_eq_ok_iff hleast hgreatest).mp hparse
  have hoccurs := Token.occurs_of_ofText htokens
  obtain ⟨pieces, hcut, rfl⟩ := Token.ofTextFrom_eq_ok_iff.mp htokens
  have hsolid : (pieces.map Prod.fst).filter (fun t => !t.isWhitespace) =
      (solidPieces pieces).map Prod.fst := List.filter_map ..
  rw [hsolid] at hderives hoccurs
  have hrendered := cut_withoutBlanks_render .short hwf hplain
  have hsource := hcut.withoutBlanks hderives.isSpaced
  -- texts are the same if they are cut into the same pieces
  have htexts : (tag.render .short).withoutBlanks = input.withoutBlanks ↔
      solidPieces pieces = plainPieces (tag.words .short) := by
    constructor
    · intro heq
      exact hsource.unique (heq ▸ hrendered)
    · intro heq
      rw [← hrendered.flatten_eq, ← hsource.flatten_eq, heq]
  rw [htexts, eq_plainPieces_iff, hderives.eq_words_iff hoccurs,
    hcut.isCanonical_iff hderives.isSpaced]

end TypeTag

/-- What is parsed as a struct type is parsed as this type. -/
private theorem StructTag.parse_toTypeTag {options : Option Value} {input : Text} {tag : StructTag}
    (h : (parse options input).result = .ok tag) :
    (TypeTag.parse options input).result = .ok tag.toTypeTag := by
  rw [parse] at h
  split at h
  · next hparse =>
    rw [hparse, ← Except.ok.inj h]
    rfl
  · cases h
  · split_ifs at h
  · cases h

/-- **Rendering a parsed tag gives its source exactly if the source is canonical.** Whatever the
options under which a text is parsed, the tag is rendered as this text, up to white space, exactly
if all addresses in the text are short, no list of type parameters in it ends in a comma, and none
is empty. The same holds of struct types. -/
theorem TypeTag.render_eq_source_iff :
    (∀ options input tag, (parse options input).result = .ok tag →
      ((tag.render .short).withoutBlanks = input.withoutBlanks ↔ input.IsCanonical)) ∧
    ∀ options input tag, (StructTag.parse options input).result = .ok tag →
      ((tag.render .short).withoutBlanks = input.withoutBlanks ↔ input.IsCanonical) :=
  ⟨fun _ _ _ h => withoutBlanks_render_eq_iff h,
    fun _ _ _ h => withoutBlanks_render_eq_iff (StructTag.parse_toTypeTag h)⟩

/-- One tag from two sources: white space is no matter, a zero and a comma too many are. -/
theorem TypeTag.render_eq_source_iff_two :
    let tag := struct ⟨Address.padded ['a'], ['M'], ['T']⟩ [primitive .u8, primitive .bool]
    let spaced : Text := " 0xa::M :: T<u8 ,\tbool>\n".toList
    let padded : Text := "0x0A::M::T<u8,bool,>".toList
    ((parse (some (Options.ofLimit 2)) spaced).result = .ok tag ∧ spaced.IsCanonical ∧
      (tag.render .short).withoutBlanks = spaced.withoutBlanks) ∧
    (parse (some (Options.ofLimit 2)) padded).result = .ok tag ∧ ¬ padded.IsCanonical ∧
      (tag.render .short).withoutBlanks ≠ padded.withoutBlanks := by
  intro tag spaced padded
  have hparts : ∀ part ∈ [([⟨.keyword (.primitive .u8), none⟩], primitive .u8),
      ([⟨.keyword (.primitive .bool), none⟩], primitive .bool)],
      Derives 2 1 part.1 part.2 :=
    List.forall_mem_cons.mpr ⟨.primitive (by decide) .u8,
      List.forall_mem_singleton.mpr (.primitive (by decide) .bool)⟩
  have hspaced : Derives 2 0 _ tag :=
    .struct (by decide) (List.cons_ne_nil 'a' []) (List.all_eq_true.mp (by decide)) (by decide)
      (.listed (by simp) false) hparts
  have hpadded : Derives 2 0 _ (struct ⟨Address.padded ['0', 'A'], ['M'], ['T']⟩ _) :=
    .struct (by decide) (List.cons_ne_nil '0' ['A']) (List.all_eq_true.mp (by decide)) (by decide)
      (.listed (by simp) true) hparts
  have hparseSpaced : (parse (some (Options.ofLimit 2)) spaced).result = .ok tag :=
    (parse_eq_ok_iff (by decide) (by decide)).mpr ⟨_, rfl, hspaced⟩
  have hparsePadded : (parse (some (Options.ofLimit 2)) padded).result = .ok tag :=
    (parse_eq_ok_iff (by decide) (by decide)).mpr ⟨_, rfl, hpadded⟩
  have hsame : (tag.render .short).withoutBlanks = spaced.withoutBlanks := by decide +kernel
  have hdiffer : (tag.render .short).withoutBlanks ≠ padded.withoutBlanks := by decide +kernel
  exact ⟨⟨hparseSpaced, (render_eq_source_iff.1 _ _ _ hparseSpaced).mp hsame, hsame⟩, hparsePadded,
    fun hcanon => hdiffer ((render_eq_source_iff.1 _ _ _ hparsePadded).mpr hcanon), hdiffer⟩

end MoveText
