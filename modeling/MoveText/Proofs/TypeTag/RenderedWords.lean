import MoveText.Proofs.Token.Words
import MoveText.Proofs.TypeTag.WellFormed
import MoveText.TypeTag.Render

/-!
# The words of a rendered tag

`TypeTag.words` are the tokens that a tag is written with. A rendered tag has these words, however
its addresses and separators are written, exactly if all of its names start with a letter
(`TypeTag.hasWords_render_iff`): each piece of the text keeps off the next one, and only a leading
underscore stops the lexer. A name may still be a keyword there, which the grammar then turns down.
-/

namespace MoveText

open Text

/-! ### The words of a tag -/

/-- Brackets around stretches, without an extra comma, or none where there are no stretches. -/
def Token.bracketed : List (List Token) → List Token
  | [] => []
  | words :: stretches => .lt :: (listed (words :: stretches) false ++ [.gt])

theorem Token.bracketed_bracketed (stretches : List (List Token)) :
    Bracketed stretches (bracketed stretches) := by
  cases stretches with
  | nil => exact .absent
  | cons words stretches => exact .listed (by simp) false

/-- The words that a name is written with. -/
def StructName.words (style : TagStyle) (name : StructName) : List Token :=
  [⟨.address, some (style.address name.address)⟩, .colonColon, .ofWord name.moduleName, .colonColon,
    .ofWord name.typeName]

/-- The words that a tag is written with. -/
def TypeTag.words (style : TagStyle) : TypeTag → List Token
  | primitive type => [⟨.keyword (.primitive type), none⟩]
  | vector element => ⟨.keyword .vector, none⟩ :: .lt :: (words style element ++ [.gt])
  | struct name params => name.words style ++ Token.bracketed (params.map fun p => words style p)

/-- Both names start with a letter. -/
structure StructName.StartsWithLetters (name : StructName) : Prop where
  moduleName : startsIn Char.isAlpha name.moduleName
  typeName : startsIn Char.isAlpha name.typeName

theorem StructName.IsPlain.startsWithLetters {name : StructName} (h : name.IsPlain) :
    name.StartsWithLetters := ⟨h.moduleName.1, h.typeName.1⟩

/-! ### The pieces of a rendered tag -/

/-- In either style an address is a literal for itself. -/
theorem TagStyle.exists_address (style : TagStyle) {s : Text} (hs : Address.isNormal s) :
    ∃ digits, style.address s = '0' :: 'x' :: digits ∧ digits ≠ [] ∧
      (∀ c ∈ digits, isHexDigit c) ∧ digits.length ≤ 64 ∧ Address.padded digits = s := by
  rw [TagStyle.address]
  split_ifs
  · obtain ⟨digits, rfl, hdigits, hlength⟩ := Address.isNormal_iff.mp hs
    have hpos : digits ≠ [] := by
      rintro rfl
      cases hlength
    refine ⟨digits, Address.normalize_of_isNormal hs, hpos,
      fun c hc => isHexDigit_of_isLowerHexDigit (hdigits c hc), Nat.le_of_eq hlength, ?_⟩
    rw [Address.padded, hlength, map_toLower_of_isLowerHexDigit hdigits, Nat.sub_self]
    rfl
  · obtain ⟨shown, heq, hne, hshown, hlength, hpadded⟩ := Address.exists_shown_shorten hs
    exact ⟨shown, heq, hne, fun c hc => isHexDigit_of_isLowerHexDigit (hshown c hc), hlength,
      hpadded⟩

/-- What is written for an address starts with a digit, whatever the address is. -/
theorem TagStyle.exists_address_eq_cons (style : TagStyle) (s : Text) :
    ∃ rest, style.address s = '0' :: rest := by
  rw [TagStyle.address, Address.normalize, Address.shorten]
  split_ifs
  · exact ⟨_, rfl⟩
  · split <;> exact ⟨_, rfl⟩

private theorem gives_lt : Gives ['<'] (fun _ => false) True [.lt] :=
  gives_of_spells .lt rfl (fun _ hc => hc) (by decide)

private theorem gives_gt : Gives ['>'] (fun _ => false) True [.gt] :=
  gives_of_spells .gt rfl (fun _ hc => hc) (by decide)

private theorem gives_colonColon : Gives [':', ':'] (fun _ => false) True [.colonColon] :=
  gives_of_spells .colonColon rfl (fun _ hc => hc) (by decide)

/-- The separator is one comma with any white space around it. -/
def TagStyle.IsCommaSeparated (style : TagStyle) : Prop :=
  ∃ before after, style.separator = before ++ ',' :: after ∧ (∀ c ∈ before, isBlank c) ∧
    ∀ c ∈ after, isBlank c

theorem TagStyle.IsCommaSeparated.short : TagStyle.short.IsCommaSeparated :=
  ⟨[], [' '], rfl, by simp, List.all_eq_true.mp (by decide)⟩

theorem TagStyle.IsCommaSeparated.full : TagStyle.full.IsCommaSeparated :=
  ⟨[], [' '], rfl, by simp, List.all_eq_true.mp (by decide)⟩

/-- A name gives its words if both of its parts start with letters. -/
private theorem StructName.gives_render (style : TagStyle) {name : StructName}
    (h : name.WellFormed) :
    Gives (name.render style) gluesToWord name.StartsWithLetters (name.words style) := by
  obtain ⟨digits, haddress, hne, hdigits, -, -⟩ := style.exists_address h.address
  have hliteral : Gives (style.address name.address) isHexDigit True
      [⟨.address, some (style.address name.address)⟩] := by
    rw [haddress]
    exact gives_of_spells (.address (.inl rfl) hne hdigits) rfl (fun _ hc => hc) (by simp)
  have hmodule :=
    gives_colonColon.append (gives_identifier h.moduleName) fun _ _ => startsIn_empty _
  have htype := gives_colonColon.append (gives_identifier h.typeName) fun _ _ => startsIn_empty _
  have hall := (hliteral.append hmodule fun _ _ => rfl).append htype fun _ _ => rfl
  refine hall.congr (fun _ hc => hc) ⟨fun hcond => ?_, fun hletters => ?_⟩
  · exact ⟨hcond.1.2.2, hcond.2.2⟩
  · exact ⟨⟨trivial, trivial, hletters.moduleName⟩, trivial, hletters.typeName⟩

namespace TypeTag

/-- Type parameters in brackets, or nothing if there are none. -/
def renderParams (style : TagStyle) : List TypeTag → Text
  | [] => []
  | param :: params => '<' :: render style param ++ renderMore style params ++ ['>']

theorem render_vector (style : TagStyle) (element : TypeTag) :
    (vector element).render style =
      Keyword.vector.spelling ++ '<' :: (element.render style ++ ['>']) := by
  rw [render, List.append_assoc]
  rfl

theorem render_struct (style : TagStyle) (name : StructName) (params : List TypeTag) :
    (struct name params).render style = name.render style ++ renderParams style params := by
  cases params <;> simp [render, renderParams]

/-- A rendered tag does not start with white space. -/
private theorem startsIn_isBlank_render (style : TagStyle) (tag : TypeTag) (tail : Text) :
    startsIn isBlank (tag.render style ++ tail) = false := by
  cases tag with
  | primitive type =>
    rw [render]
    cases type <;> rfl
  | vector element =>
    rw [render]
    rfl
  | struct name params =>
    obtain ⟨rest, haddress⟩ := style.exists_address_eq_cons name.address
    cases params <;> simp [render, StructName.render, haddress, isBlank]

variable {style : TagStyle}

/-- Tags with separators between them give their words with commas between them, if each of the tags
gives its own. -/
private theorem gives_renderMore (hstyle : style.IsCommaSeparated) {params : List TypeTag}
    {param : TypeTag} (h : ∀ p ∈ param :: params, Gives (p.render style) gluesToWord
      (p.AllNames StructName.StartsWithLetters) (p.words style)) :
    Gives (param.render style ++ renderMore style params) gluesToWord
      (∀ p ∈ param :: params, p.AllNames StructName.StartsWithLetters)
      (Token.listed ((param :: params).map fun p => p.words style) false) := by
  obtain ⟨hparam, hparams⟩ := List.forall_mem_cons.mp h
  induction params generalizing param with
  | nil => simpa [renderMore, Token.listed_singleton] using hparam
  | cons next params ih =>
    obtain ⟨hnext, hothers⟩ := List.forall_mem_cons.mp hparams
    have htail := ih hparams hnext hothers
    have hboth := (IsSeparator.gives hstyle).append htail fun _ _ => by
      rw [List.append_assoc]
      exact startsIn_isBlank_render style next _
    have hall := hparam.append hboth fun tail _ => by
      rw [List.append_assoc]
      exact IsSeparator.startsIn hstyle _
    rw [List.map_cons, Token.listed_cons (by simp), renderMore, List.append_assoc]
    refine hall.congr (fun _ hc => hc) ?_
    rw [true_and, ← List.forall_mem_cons]

/-- **The words of a rendered tag.** A well-formed tag gives its words if all of its names start
with letters, and cannot be read otherwise. -/
theorem gives_render (hstyle : style.IsCommaSeparated) (tag : TypeTag) (h : tag.WellFormed) :
    Gives (tag.render style) gluesToWord (tag.AllNames StructName.StartsWithLetters)
      (tag.words style) := by
  induction tag using TypeTag.induction with
  | primitive type =>
    rw [words]
    exact (gives_keyword (.primitive type)).congr (fun _ hc => hc)
      (iff_of_true trivial (.primitive type))
  | vector element ih =>
    have helement := ih (AllNames.vector_iff.mp h)
    have hclose := helement.append gives_gt fun _ _ => rfl
    have hbrackets := gives_lt.append hclose fun _ _ => startsIn_empty _
    have hall := (gives_keyword .vector).append hbrackets fun _ _ => rfl
    rw [render_vector, words]
    refine hall.congr (fun _ hc => nomatch hc) ?_
    simp [AllNames.vector_iff]
  | struct name params ih =>
    obtain ⟨hname, hparams⟩ := AllNames.struct_iff.mp h
    have hrender := StructName.gives_render style hname
    rw [render_struct, words]
    cases params with
    | nil =>
      rw [renderParams, List.map_nil, Token.bracketed, List.append_nil, List.append_nil]
      refine hrender.congr (fun _ hc => hc) ?_
      simp [AllNames.struct_iff]
    | cons param params =>
      -- from the inside out: the parameters, the closing mark, the opening one, the name
      have hmore := gives_renderMore hstyle fun p hp => ih p hp (hparams p hp)
      have hclose := hmore.append gives_gt fun _ _ => rfl
      have hbrackets := gives_lt.append hclose fun _ _ => startsIn_empty _
      have hall := hrender.append hbrackets fun _ _ => rfl
      refine hall.congr (fun _ hc => nomatch hc) ?_
      simp [AllNames.struct_iff]

/-- **A rendered tag has the words of the tag**, in either style and with any separator of a comma
and white space, exactly if all names start with letters. -/
theorem hasWords_render_iff (hstyle : style.IsCommaSeparated) {tag : TypeTag} (h : tag.WellFormed)
    {found : List Token} :
    HasWords (tag.render style) found ↔
      tag.AllNames StructName.StartsWithLetters ∧ found = tag.words style :=
  (gives_render hstyle tag h).hasWords_iff

end TypeTag

end MoveText
