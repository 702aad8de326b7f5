import MoveText.Proofs.TypeTag.RenderedWords

/-!
# Rendering a tag and parsing it again

The words of a well-formed tag derive this tag, if all its names are plain (`derives_words`), and
they derive nothing at all otherwise (`eq_of_derives_words`). With what is known of the words of a
rendered tag, this settles which tags survive being rendered and parsed: those that are not nested
too deep and have plain names, whatever the style. All other well-formed tags are turned down, and
never taken for another tag. And only such tags are ever parsed from any text.
-/

namespace MoveText.TypeTag

variable {style : TagStyle} {limit depth : Nat} {tag : TypeTag}

/-- The words of a tag start with a token that closes nothing. -/
theorem exists_cons_words (style : TagStyle) (tag : TypeTag) :
    ∃ t rest, tag.words style = t :: rest ∧ t ≠ .gt := by
  cases tag with
  | primitive type => exact ⟨_, _, words.eq_1 style type, by simp [Token.gt]⟩
  | vector element => exact ⟨_, _, words.eq_2 style element, by simp [Token.gt]⟩
  | struct name params => exact ⟨_, _, words.eq_3 style name params, by simp [Token.gt]⟩

/-- Parameters with the words of each, as a derivation lists them. -/
def wordedParts (style : TagStyle) (params : List TypeTag) : List (List Token × TypeTag) :=
  params.map fun param => (param.words style, param)

private theorem wordedParts_fst (params : List TypeTag) :
    (wordedParts style params).map Prod.fst = params.map fun param => param.words style := by
  rw [wordedParts, List.map_map]
  rfl

private theorem wordedParts_snd (params : List TypeTag) :
    (wordedParts style params).map Prod.snd = params := by
  rw [wordedParts, List.map_map]
  exact List.map_id params

/-- Brackets that start where those of some parameters do hold these parameters, if each of their
stretches that starts where a parameter does is that parameter. -/
private theorem eq_wordedParts {parts : List (List Token × TypeTag)} {params : List TypeTag}
    {brackets tail tail' : List Token} {closing closing' : Token}
    (hbrackets : Token.Bracketed (parts.map Prod.fst) brackets)
    (hhead : ∀ part ∈ parts, ∃ t words, part.1 = t :: words ∧ t ≠ .gt)
    (hsame : ∀ part ∈ parts, ∀ param ∈ params, ∀ c c' others others', c ≠ .lt → c' ≠ .lt →
      part.1 ++ c :: others = param.words style ++ c' :: others' →
        part = (param.words style, param))
    (hclosing : closing ≠ .lt) (hclosing' : closing' ≠ .lt)
    (heq : brackets ++ closing :: tail =
      Token.bracketed (params.map fun param => param.words style) ++ closing' :: tail') :
    parts = wordedParts style params ∧
      brackets = Token.bracketed (params.map fun param => param.words style) := by
  have hworded := Token.bracketed_bracketed (params.map fun param => param.words style)
  rw [← wordedParts_fst] at hworded heq ⊢
  refine hbrackets.unique hworded hhead ?_ ?_ hclosing hclosing' heq
  · intro part hpart
    obtain ⟨param, -, rfl⟩ := List.mem_map.mp hpart
    exact exists_cons_words style param
  · intro part hpart part' hpart' c c' others others' hc hc' hstart
    obtain ⟨param, hparam, rfl⟩ := List.mem_map.mp hpart'
    exact hsame part hpart param hparam c c' others others'
      (Token.ne_lt_of_closes (by decide) hc) (Token.ne_lt_of_closes (by decide) hc') hstart

/-- **The words of a tag with plain names derive it.** -/
theorem derives_words (hwf : tag.WellFormed) (hplain : tag.AllNames StructName.IsPlain)
    (hdepth : depth + tag.depth < limit) : Derives limit depth (tag.words style) tag := by
  induction tag using TypeTag.induction generalizing depth with
  | primitive type =>
    rw [words]
    exact .primitive hdepth type
  | vector element ih =>
    rw [TypeTag.depth] at hdepth
    rw [words]
    refine .vector (by omega) (ih ?_ ?_ (by omega))
    · exact AllNames.vector_iff.mp hwf
    · exact AllNames.vector_iff.mp hplain
  | struct name params ih =>
    obtain ⟨hname, hparams⟩ := AllNames.struct_iff.mp hwf
    obtain ⟨hnamePlain, hparamsPlain⟩ := AllNames.struct_iff.mp hplain
    obtain ⟨hself, hbelow⟩ := add_depth_struct_lt_iff.mp hdepth
    obtain ⟨digits, haddress, hne, hdigits, hlength, hpadded⟩ := style.exists_address hname.address
    have hmodule := Token.ofWord_eq_name_iff.mpr ⟨rfl, hnamePlain.moduleName.2⟩
    have htype := Token.ofWord_eq_name_iff.mpr ⟨rfl, hnamePlain.typeName.2⟩
    have hbrackets := Token.bracketed_bracketed (params.map fun param => param.words style)
    rw [← wordedParts_fst] at hbrackets
    have hparts : ∀ part ∈ wordedParts style params, Derives limit (depth + 1) part.1 part.2 := by
      intro part hpart
      obtain ⟨param, hparam, rfl⟩ := List.mem_map.mp hpart
      exact ih param hparam (hparams param hparam) (hparamsPlain param hparam) (hbelow param hparam)
    have hall : Derives limit depth _ (.struct ⟨_, name.moduleName, name.typeName⟩ _) :=
      .struct hself hne hdigits hlength hbrackets hparts
    rw [wordedParts_snd, wordedParts_fst, hpadded, ← haddress, ← hmodule, ← htype] at hall
    rw [words]
    exact hall

/-- **The words of a tag derive nothing but the tag**, and only if its names are plain. -/
theorem eq_of_derives_words {found tail tail' : List Token} {tag' : TypeTag}
    {closing closing' : Token} (h : Derives limit depth found tag') (hclosing : closing ≠ .lt)
    (hclosing' : closing' ≠ .lt) (hwf : tag.WellFormed)
    (hletters : tag.AllNames StructName.StartsWithLetters)
    (heq : found ++ closing :: tail = tag.words style ++ closing' :: tail') :
    found = tag.words style ∧ tag' = tag ∧ tag.AllNames StructName.IsPlain := by
  induction h generalizing tag closing closing' tail tail' with
  | @primitive depth hdepth type =>
    cases tag with
    | primitive type' =>
      rw [words] at heq ⊢
      obtain ⟨hsame, -⟩ := List.cons.inj heq
      obtain rfl : type = type' := by simpa using hsame
      exact ⟨rfl, rfl, .primitive type⟩
    | vector element => simp [words] at heq
    | struct name params => simp [words, StructName.words] at heq
  | @vector depth found element hdepth helement ih =>
    cases tag with
    | primitive type => simp [words] at heq
    | vector element' =>
      rw [words] at heq ⊢
      have hrest : found ++ .gt :: closing :: tail =
          element'.words style ++ .gt :: closing' :: tail' := by simpa using heq
      obtain ⟨rfl, rfl, hplain⟩ := ih (by decide) (by decide) (AllNames.vector_iff.mp hwf)
        (AllNames.vector_iff.mp hletters) hrest
      exact ⟨rfl, rfl, .vector hplain⟩
    | struct name params => simp [words, StructName.words] at heq
  | @struct depth digits moduleName typeName parts brackets hdepth hne hdigits hlength hbrackets
      hparts ih =>
    cases tag with
    | primitive type => simp [words] at heq
    | vector element => simp [words] at heq
    | struct name params =>
      obtain ⟨hname, hparamsWf⟩ := AllNames.struct_iff.mp hwf
      obtain ⟨hnameLetters, hparamsLetters⟩ := AllNames.struct_iff.mp hletters
      obtain ⟨digits', haddress, -, -, -, hpadded⟩ := style.exists_address hname.address
      rw [words, StructName.words, haddress] at heq ⊢
      obtain ⟨hdigits', hmodule, htype, hrest⟩ : digits = digits' ∧
          ⟨.name, some moduleName⟩ = Token.ofWord name.moduleName ∧
          ⟨.name, some typeName⟩ = Token.ofWord name.typeName ∧
          brackets ++ closing :: tail =
            Token.bracketed (params.map fun param => param.words style) ++ closing' :: tail' := by
        simpa using heq
      obtain ⟨hmoduleEq, hmodulePlain⟩ := Token.ofWord_eq_name_iff.mp hmodule.symm
      obtain ⟨htypeEq, htypePlain⟩ := Token.ofWord_eq_name_iff.mp htype.symm
      -- what the induction gives for a part and a parameter that start at one place
      have hsame : ∀ part ∈ parts, ∀ param ∈ params, ∀ c c' others others', c ≠ .lt → c' ≠ .lt →
          part.1 ++ c :: others = param.words style ++ c' :: others' →
            part.1 = param.words style ∧ part.2 = param ∧ param.AllNames StructName.IsPlain :=
        fun part hpart param hparam _ _ _ _ hc hc' => ih part hpart hc hc' (hparamsWf param hparam)
          (hparamsLetters param hparam)
      obtain ⟨hpartsEq, hbracketsEq⟩ := eq_wordedParts hbrackets
        (fun part hpart => (hparts part hpart).exists_cons (.inl rfl))
        (fun part hpart param hparam c c' others others' hc hc' hstart =>
          have hpair := hsame part hpart param hparam c c' others others' hc hc' hstart
          Prod.ext hpair.1 hpair.2.1)
        hclosing hclosing' hrest
      subst hpartsEq hbracketsEq
      have hplain : ∀ param ∈ params, param.AllNames StructName.IsPlain := fun param hparam =>
        (hsame _ (List.mem_map_of_mem hparam) param hparam .eof .eof [] [] (by decide) (by decide)
          rfl).2.2
      refine ⟨?_, ?_, .struct ⟨⟨hnameLetters.moduleName, hmodulePlain⟩,
        ⟨hnameLetters.typeName, htypePlain⟩⟩ hplain⟩
      · rw [hmodule, htype, hdigits']
        rfl
      · rw [wordedParts_snd, hdigits', hpadded, ← hmoduleEq, ← htypeEq]

/-! ### Whole texts -/

/-- What any text is parsed as is well formed, lies above the limit and has plain names only. -/
theorem image_of_parse (hleast : 1 ≤ limit) (hgreatest : limit ≤ 255) {input : Text}
    (h : (parse (some (Options.ofLimit limit)) input).result = .ok tag) :
    tag.WellFormed ∧ tag.depth < limit ∧ tag.AllNames StructName.IsPlain := by
  obtain ⟨tokens, htokens, hderives⟩ := (parse_eq_ok_iff hleast hgreatest).mp h
  have hwords := Token.occurs_of_ofText htokens
  have hdepth := hderives.depth_lt
  exact ⟨hderives.wellFormed hwords, by omega, hderives.plain hwords⟩

/-- A rendered tag is parsed as this tag or not at all, the former exactly if it is not nested too
deep and its names are plain. -/
theorem parse_render_eq_ok_iff (hleast : 1 ≤ limit) (hgreatest : limit ≤ 255) (hwf : tag.WellFormed)
    (hstyle : style.IsCommaSeparated) {tag' : TypeTag} :
    (parse (some (Options.ofLimit limit)) (tag.render style)).result = .ok tag' ↔
      tag' = tag ∧ tag.depth < limit ∧ tag.AllNames StructName.IsPlain := by
  rw [parse_eq_ok_iff hleast hgreatest]
  constructor
  · rintro ⟨tokens, htokens, hderives⟩
    obtain ⟨hletters, hwords⟩ := (hasWords_render_iff hstyle hwf).mp ⟨tokens, htokens, rfl⟩
    rw [hwords] at hderives
    have hend : tag.words style ++ [.eof] = tag.words style ++ [.eof] := rfl
    obtain ⟨-, rfl, hplain⟩ :=
      eq_of_derives_words hderives (by decide) (by decide) hwf hletters hend
    have hdepth := hderives.depth_lt
    exact ⟨rfl, by omega, hplain⟩
  · rintro ⟨rfl, hdepth, hplain⟩
    obtain ⟨tokens, htokens, hwords⟩ := (hasWords_render_iff hstyle hwf).mpr
      ⟨hplain.imp fun _ => StructName.IsPlain.startsWithLetters, rfl⟩
    refine ⟨tokens, htokens, ?_⟩
    rw [hwords]
    exact derives_words hwf hplain (by omega)

/-- **Rendering and parsing type tags.** A well-formed tag, rendered in either style and with any
separator of one comma and white space, is parsed as itself exactly if it lies above the limit and
all of its names are plain; in all other cases it is turned down. And whatever text is parsed, the
tag is well formed, lies above the limit and has plain names only. -/
theorem parse_render (hleast : 1 ≤ limit) (hgreatest : limit ≤ 255) :
    (∀ (tag : TypeTag) (style : TagStyle), tag.WellFormed → style.IsCommaSeparated →
      ((parse (some (Options.ofLimit limit)) (tag.render style)).result = .ok tag ↔
        tag.depth < limit ∧ tag.AllNames StructName.IsPlain) ∧
      (¬ (tag.depth < limit ∧ tag.AllNames StructName.IsPlain) → ∃ failure,
        (parse (some (Options.ofLimit limit)) (tag.render style)).result = .error failure)) ∧
    (∀ input tag, (parse (some (Options.ofLimit limit)) input).result = .ok tag →
      tag.WellFormed ∧ tag.depth < limit ∧ tag.AllNames StructName.IsPlain) := by
  refine ⟨fun tag style hwf hstyle => ?_, fun input tag => image_of_parse hleast hgreatest⟩
  have hparse : ∀ tag',
      (parse (some (Options.ofLimit limit)) (tag.render style)).result = .ok tag' ↔
        tag' = tag ∧ tag.depth < limit ∧ tag.AllNames StructName.IsPlain := fun _ =>
    parse_render_eq_ok_iff hleast hgreatest hwf hstyle
  refine ⟨(hparse tag).trans (and_iff_right rfl), fun hnot => ?_⟩
  cases hresult : (parse (some (Options.ofLimit limit)) (tag.render style)).result with
  | error failure => exact ⟨failure, rfl⟩
  | ok tag' => exact absurd ((hparse tag').mp hresult).2 hnot

/-- A struct type with two parameters, rendered with a short address and a blank behind the comma,
survives at a limit of two and is turned down at a limit of one. -/
theorem parse_render_pair :
    let tag := struct ⟨Address.padded ['1'], ['M'], ['T']⟩ [primitive .bool, primitive .u8]
    (1 ≤ 1 ∧ 2 ≤ 255) ∧ tag.WellFormed ∧ TagStyle.short.IsCommaSeparated ∧
      (parse (some (Options.ofLimit 2)) (tag.render .short)).result = .ok tag ∧
      ∃ failure,
        (parse (some (Options.ofLimit 1)) (tag.render .short)).result = .error failure := by
  intro tag
  have hall : ∀ {P : StructName → Prop}, P ⟨Address.padded ['1'], ['M'], ['T']⟩ → tag.AllNames P :=
    fun hname => .struct hname (by simpa using ⟨.primitive _, .primitive _⟩)
  have haddress : Address.isNormal (Address.padded ['1']) :=
    Address.isNormal_padded (List.all_eq_true.mp (by decide)) (by decide)
  have hwf : tag.WellFormed := hall ⟨haddress, by decide, by decide⟩
  have hplain : tag.AllNames StructName.IsPlain :=
    hall ⟨⟨by decide, fun k hk => by cases (Keyword.ofSpelling?_eq_some_iff.mpr hk)⟩,
      ⟨by decide, fun k hk => by cases (Keyword.ofSpelling?_eq_some_iff.mpr hk)⟩⟩
  have hstyle : TagStyle.short.IsCommaSeparated :=
    ⟨[], [' '], rfl, by simp, List.all_eq_true.mp (by decide)⟩
  refine ⟨by decide, hwf, hstyle, ?_, ?_⟩
  · exact ((parse_render (by decide) (by decide)).1 tag _ hwf hstyle).1.mpr ⟨by decide, hplain⟩
  · exact ((parse_render (by decide) (by decide)).1 tag _ hwf hstyle).2 fun h =>
      absurd h.1 (by decide)

end MoveText.TypeTag
