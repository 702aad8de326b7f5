import MoveText.Proofs.TypeTag.Normalized
import MoveText.Proofs.TypeTag.RenderedWords

/-!
# Equal text, equal tags

The text of a tag is put together of names without any quoting, so it tells the tag only as far as
each name can be told from what may follow it. `StructName.IsDelimited` says so of one name. Where
the texts of two tags, all of whose names are delimited, start at one place, they end at one place,
and the tags are the same but for the spelling of their addresses (`TypeTag.render_append_inj`).
That the names can be read by the lexer is not needed, nor that they are identifiers.
-/

namespace MoveText

open Text

/-! ### Texts that end before what follows them -/

/-- What may follow a text cannot be taken to start within it. -/
def Text.EndsBefore (follow : Text → Prop) (s : Text) : Prop :=
  ∀ front back rest, s = front ++ back → back ≠ [] → follow rest → ¬ follow (back ++ rest)

/-- Two texts that start at one place and end before what follows them end at one place. -/
theorem Text.EndsBefore.append_inj {follow : Text → Prop} {s t rest rest' : Text}
    (hs : EndsBefore follow s) (ht : EndsBefore follow t) (hrest : follow rest)
    (hrest' : follow rest') (h : s ++ rest = t ++ rest') : s = t ∧ rest = rest' := by
  rcases List.append_eq_append_iff.mp h with ⟨back, rfl, rfl⟩ | ⟨back, rfl, rfl⟩
  · by_cases hback : back = []
    · simp [hback]
    · exact (ht s back rest' rfl hback hrest' hrest).elim
  · by_cases hback : back = []
    · simp [hback]
    · exact (hs t back rest rfl hback hrest hrest').elim

/-- The mark between the parts of a name. -/
def colons : Text := [':', ':']

/-- The text does not hold the mark `::`, nor does it end in the first half of it. -/
structure Text.IsDelimitedModule (s : Text) : Prop where
  colons : ¬ colons <:+: s
  last : s.getLast? ≠ some ':'

private theorem Text.isDelimitedModule_of_not_mem {s : Text} (hs : ':' ∉ s) :
    s.IsDelimitedModule where
  colons h := hs (h.subset (by simp [MoveText.colons]))
  last h := hs (List.mem_of_getLast? h)

/-- Such a text ends before the mark `::`. -/
private theorem Text.IsDelimitedModule.endsBefore {s : Text} (hs : s.IsDelimitedModule) :
    EndsBefore (MoveText.colons <+: ·) s := by
  rintro front back rest rfl hback - ⟨others, hothers⟩
  obtain ⟨c, back, rfl⟩ := List.exists_cons_of_ne_nil hback
  rcases back with _ | ⟨d, back⟩
  · obtain rfl : ':' = c := (List.cons.inj hothers).1
    exact hs.last (by simp)
  · obtain ⟨rfl, rfl, -⟩ : ':' = c ∧ ':' = d ∧ others = back ++ rest := by
      simpa [MoveText.colons] using hothers
    exact hs.colons ⟨front, back, by simp [MoveText.colons]⟩

namespace TagStyle

/-- The separator is one comma and white space behind it. -/
def StartsWithComma (style : TagStyle) : Prop :=
  ∃ blanks, style.separator = ',' :: blanks ∧ ∀ c ∈ blanks, isBlank c

theorem StartsWithComma.short : TagStyle.short.StartsWithComma :=
  ⟨[' '], rfl, List.all_eq_true.mp (by decide)⟩

theorem StartsWithComma.full : TagStyle.full.StartsWithComma :=
  ⟨[' '], rfl, List.all_eq_true.mp (by decide)⟩

theorem StartsWithComma.normal : TagStyle.normal.StartsWithComma :=
  ⟨[], rfl, List.all_eq_true.mp (by decide)⟩

/-- A tag may end before this. -/
def EndsTag (style : TagStyle) (rest : Text) : Prop :=
  rest = [] ∨ ['>'] <+: rest ∨ style.separator <+: rest

/-- The name of a struct type may end before this: before parameters, or where a tag may end. -/
def EndsName (style : TagStyle) (rest : Text) : Prop := ['<'] <+: rest ∨ style.EndsTag rest

variable {style : TagStyle}

/-- No bracket opens where a tag ends. -/
private theorem EndsTag.ne_lt_cons (hstyle : style.StartsWithComma) {rest : Text}
    (h : style.EndsTag rest) (s : Text) : rest ≠ '<' :: s := by
  rintro rfl
  obtain ⟨blanks, hseparator, -⟩ := hstyle
  rcases h with h | ⟨_, h⟩ | ⟨_, h⟩
  · cases h
  · cases h
  · rw [hseparator] at h
    cases h

/-- The text holds no bracket and no separator. -/
structure IsDelimitedName (style : TagStyle) (s : Text) : Prop where
  lt : '<' ∉ s
  gt : '>' ∉ s
  separator : ¬ style.separator <:+: s

/-- Such a text ends before what may follow the name of a struct type. -/
private theorem IsDelimitedName.endsBefore (hstyle : style.StartsWithComma) {s : Text}
    (hs : style.IsDelimitedName s) : EndsBefore style.EndsName s := by
  obtain ⟨hlt, hgt, hseparator⟩ := hs
  rintro front back rest rfl hback hrest hends
  obtain ⟨c, back, rfl⟩ := List.exists_cons_of_ne_nil hback
  obtain ⟨blanks, hsep, hblanks⟩ := hstyle
  rcases hends with ⟨_, h⟩ | h | ⟨_, h⟩ | ⟨others, h⟩
  · obtain ⟨rfl, -⟩ := List.cons.inj h
    exact hlt (by simp)
  · cases h
  · obtain ⟨rfl, -⟩ := List.cons.inj h
    exact hgt (by simp)
  · -- the separator lies within the name, or some of its blanks start what follows the name
    rcases List.append_eq_append_iff.mp h with ⟨tail, htail, -⟩ | ⟨blank, hblank, hothers⟩
    · exact hseparator ⟨front, tail, by rw [htail, List.append_assoc]⟩
    · rw [hsep] at hblank
      obtain ⟨rfl, hrun⟩ := List.cons.inj hblank
      rcases blank with _ | ⟨d, blank⟩
      · exact hseparator ⟨front, [], by simp [hsep, hrun]⟩
      · have hd : isBlank d := hblanks d (by simp [hrun])
        have hnot : ∀ {e : Char} {tail word : Text}, ¬ isBlank e →
            ¬ (e :: tail) ++ word = rest := by
          rintro e tail word he rfl
          obtain ⟨rfl, -⟩ := List.cons.inj hothers
          exact he hd
        rcases hrest with ⟨word, hrest⟩ | hrest | ⟨word, hrest⟩ | ⟨word, hrest⟩
        · exact hnot (by decide) hrest
        · cases hothers.symm.trans hrest
        · exact hnot (by decide) hrest
        · rw [hsep] at hrest
          exact hnot (by decide) hrest

/-- An address has the same text as its normal form. -/
private theorem address_normalize (style : TagStyle) {s : Text}
    (hs : Address.isNormal (Address.normalize s)) :
    style.address (Address.normalize s) = style.address s := by
  rw [address, address, Address.shorten_normalize, Address.normalize_of_isNormal hs]

/-- The text of an address is told from the mark `::`. -/
private theorem endsBefore_address (style : TagStyle) {s : Text}
    (hs : Address.isNormal (Address.normalize s)) :
    EndsBefore (colons <+: ·) (style.address s) := by
  obtain ⟨digits, haddress, -, hdigits, -⟩ := style.exists_address hs
  rw [← style.address_normalize hs, haddress]
  refine (isDelimitedModule_of_not_mem fun hmem => ?_).endsBefore
  have hcolon : ':' ∈ digits := by simpa using hmem
  exact absurd (hdigits ':' hcolon) (by decide)

/-- The text of an address tells the address. -/
private theorem normalize_eq_of_address_eq (style : TagStyle) {s t : Text}
    (hs : Address.isNormal (Address.normalize s)) (ht : Address.isNormal (Address.normalize t))
    (h : style.address s = style.address t) : Address.normalize s = Address.normalize t := by
  rw [← style.address_normalize hs, ← style.address_normalize ht] at h
  obtain ⟨digits, haddress, -, -, -, hpadded⟩ := style.exists_address hs
  obtain ⟨digits', haddress', -, -, -, hpadded'⟩ := style.exists_address ht
  obtain rfl : digits = digits' := by simpa [haddress, haddress'] using h
  exact hpadded.symm.trans hpadded'

end TagStyle

/-! ### Names -/

variable {style : TagStyle} {rest rest' : Text}

/-- The module can be told from the mark `::`, and the type name from brackets and separators. -/
structure StructName.IsDelimited (style : TagStyle) (name : StructName) : Prop where
  moduleName : name.moduleName.IsDelimitedModule
  typeName : style.IsDelimitedName name.typeName

/-- No identifier holds any of the marks. -/
private theorem Identifier.not_mem_of_isValid {s : Text} (hs : isValid s) {c : Char}
    (hc : ¬ isNameChar c) : c ∉ s := fun hmem => hc (isNameChar_of_isValid hs c hmem)

theorem StructName.isDelimited_of_isValid (hstyle : style.StartsWithComma) {name : StructName}
    (hmodule : Identifier.isValid name.moduleName) (htype : Identifier.isValid name.typeName) :
    name.IsDelimited style := by
  obtain ⟨blanks, hseparator, -⟩ := hstyle
  have hcomma : ',' ∈ style.separator := by simp [hseparator]
  refine ⟨isDelimitedModule_of_not_mem (Identifier.not_mem_of_isValid hmodule (by decide)), ?_⟩
  exact ⟨Identifier.not_mem_of_isValid htype (by decide),
    Identifier.not_mem_of_isValid htype (by decide),
    fun h => Identifier.not_mem_of_isValid htype (by decide) (h.subset hcomma)⟩

/-- **The text of a name tells the name and where it ends**, if names are delimited. -/
theorem StructName.render_append_inj (hstyle : style.StartsWithComma) {m n : StructName}
    (hm : m.HasAddress) (hn : n.HasAddress) (hm' : m.IsDelimited style) (hn' : n.IsDelimited style)
    (hrest : style.EndsName rest) (hrest' : style.EndsName rest')
    (h : m.render style ++ rest = n.render style ++ rest') :
    m.normalize = n.normalize ∧ rest = rest' := by
  have hparts : ∀ (name : StructName) (tail : Text), name.render style ++ tail =
      style.address name.address ++ (colons ++ (name.moduleName ++ (colons ++
        (name.typeName ++ tail)))) := fun name tail => by simp [render, colons]
  rw [hparts, hparts] at h
  obtain ⟨haddress, h⟩ := (style.endsBefore_address hm).append_inj (style.endsBefore_address hn)
    (List.prefix_append ..) (List.prefix_append ..) h
  obtain ⟨hmodule, h⟩ := hm'.moduleName.endsBefore.append_inj hn'.moduleName.endsBefore
    (List.prefix_append ..) (List.prefix_append ..) (List.append_cancel_left h)
  obtain ⟨htype, hrest⟩ := (hm'.typeName.endsBefore hstyle).append_inj
    (hn'.typeName.endsBefore hstyle) hrest hrest' (List.append_cancel_left h)
  rw [normalize, normalize, style.normalize_eq_of_address_eq hm hn haddress, hmodule, htype]
  exact ⟨rfl, hrest⟩

/-- No keyword starts another one. -/
private theorem Keyword.eq_of_prefix_spelling {k l : Keyword} (h : k.spelling <+: l.spelling) :
    k = l := by
  have hall : ∀ k ∈ Keyword.all, ∀ l ∈ Keyword.all, k.spelling <+: l.spelling → k = l := by decide
  have hmem : ∀ k : Keyword, k ∈ Keyword.all := by
    rintro ((_ | _) | _ | (_ | _)) <;> decide
  exact hall k (hmem k) l (hmem l) h

private theorem Keyword.spelling_append_inj {k l : Keyword}
    (h : k.spelling ++ rest = l.spelling ++ rest') : k = l ∧ rest = rest' := by
  have hsame : k = l := by
    rcases List.append_eq_append_iff.mp h with ⟨_, heq, -⟩ | ⟨_, heq, -⟩
    · exact eq_of_prefix_spelling ⟨_, heq.symm⟩
    · exact (eq_of_prefix_spelling ⟨_, heq.symm⟩).symm
  rw [hsame] at h
  exact ⟨hsame, List.append_cancel_left h⟩

namespace TypeTag

/-! ### Tags -/

/-- A struct type starts with a digit, and no other tag does. -/
private theorem render_struct_ne (style : TagStyle) (name : StructName) (params : List TypeTag)
    {c : Char} (hc : c ≠ '0') (s : Text) : (struct name params).render style ++ rest ≠ c :: s := by
  intro h
  obtain ⟨tail, haddress⟩ := style.exists_address_eq_cons name.address
  rw [render_struct, StructName.render, haddress] at h
  exact hc (List.cons.inj h).1.symm

/-- Parameters up to a closing bracket are the same if any two that start at one place are. -/
private theorem renderMore_append_inj (hstyle : style.StartsWithComma)
    {params params' : List TypeTag}
    (hsame : ∀ p ∈ params, ∀ p' ∈ params', ∀ tail tail' : Text, style.EndsTag tail →
      style.EndsTag tail' → p.render style ++ tail = p'.render style ++ tail' →
        p.normalize = p'.normalize ∧ tail = tail')
    (h : renderMore style params ++ '>' :: rest = renderMore style params' ++ '>' :: rest') :
    params.map normalize = params'.map normalize ∧ rest = rest' := by
  obtain ⟨blanks, hseparator, -⟩ := hstyle
  have hends : ∀ (ps : List TypeTag) (tail : Text),
      style.EndsTag (renderMore style ps ++ '>' :: tail) := by
    rintro (_ | ⟨p, ps⟩) tail
    · exact .inr (.inl ⟨tail, rfl⟩)
    · exact .inr (.inr ⟨_, by rw [renderMore, List.append_assoc, List.append_assoc]⟩)
  induction params generalizing params' with
  | nil =>
    cases params' with
    | nil => exact ⟨rfl, (List.cons.inj h).2⟩
    | cons p' params' => simp [renderMore, hseparator] at h
  | cons p params ih =>
    cases params' with
    | nil => simp [renderMore, hseparator] at h
    | cons p' params' =>
      simp only [renderMore, List.append_assoc, List.append_cancel_left_eq] at h
      obtain ⟨hfirst, h⟩ := hsame p List.mem_cons_self p' List.mem_cons_self _ _ (hends _ _)
        (hends _ _) h
      obtain ⟨hothers, hrest⟩ := ih (fun q hq q' hq' =>
        hsame q (List.mem_cons_of_mem p hq) q' (List.mem_cons_of_mem p' hq')) h
      rw [List.map_cons, List.map_cons, hfirst, hothers]
      exact ⟨rfl, hrest⟩

/-- Brackets are the same if any two parameters that start at one place are. They are left out for
an empty list only. -/
private theorem renderParams_append_inj (hstyle : style.StartsWithComma)
    {params params' : List TypeTag}
    (hsame : ∀ p ∈ params, ∀ p' ∈ params', ∀ tail tail' : Text, style.EndsTag tail →
      style.EndsTag tail' → p.render style ++ tail = p'.render style ++ tail' →
        p.normalize = p'.normalize ∧ tail = tail')
    (hrest : style.EndsTag rest) (hrest' : style.EndsTag rest')
    (h : renderParams style params ++ rest = renderParams style params' ++ rest') :
    params.map normalize = params'.map normalize ∧ rest = rest' := by
  cases params with
  | nil =>
    cases params' with
    | nil => exact ⟨rfl, h⟩
    | cons p' params' => exact (hrest.ne_lt_cons hstyle _ h).elim
  | cons p params =>
    cases params' with
    | nil => exact (hrest'.ne_lt_cons hstyle _ h.symm).elim
    | cons p' params' =>
      -- with a separator in front both are lists of parameters up to a closing bracket
      refine renderMore_append_inj hstyle hsame ?_
      simpa [renderParams, renderMore] using h

/-- **The text of a tag tells the tag and where it ends**, whatever may follow it, if all of its
names are delimited. -/
theorem render_append_inj (hstyle : style.StartsWithComma) {s t : TypeTag}
    (hs : s.AllNames fun name => name.HasAddress ∧ name.IsDelimited style)
    (ht : t.AllNames fun name => name.HasAddress ∧ name.IsDelimited style)
    (hrest : style.EndsTag rest) (hrest' : style.EndsTag rest')
    (h : s.render style ++ rest = t.render style ++ rest') :
    s.normalize = t.normalize ∧ rest = rest' := by
  induction s using TypeTag.induction generalizing t rest rest' with
  | primitive type =>
    cases t with
    | primitive type' =>
      have hlabels : (Keyword.primitive type).spelling ++ rest =
          (Keyword.primitive type').spelling ++ rest' := h
      obtain ⟨⟨⟩, hrest⟩ := Keyword.spelling_append_inj hlabels
      exact ⟨rfl, hrest⟩
    | vector element =>
      rw [render_vector, List.append_assoc] at h
      cases (Keyword.spelling_append_inj (k := .primitive type) (l := .vector) h).1
    | struct name params =>
      cases type <;> exact (render_struct_ne style name params (by decide) _ h.symm).elim
  | vector element ih =>
    cases t with
    | primitive type =>
      rw [render_vector, List.append_assoc] at h
      cases (Keyword.spelling_append_inj (k := .vector) (l := .primitive type) h).1
    | vector element' =>
      have helements : element.render style ++ '>' :: rest =
          element'.render style ++ '>' :: rest' := by simpa [render] using h
      obtain ⟨helement, hrest⟩ := ih (AllNames.vector_iff.mp hs) (AllNames.vector_iff.mp ht)
        (.inr (.inl ⟨rest, rfl⟩)) (.inr (.inl ⟨rest', rfl⟩)) helements
      rw [normalize, normalize, helement]
      exact ⟨rfl, (List.cons.inj hrest).2⟩
    | struct name params =>
      exact (render_struct_ne style name params (by decide) _ h.symm).elim
  | struct name params ih =>
    cases t with
    | primitive type =>
      cases type <;> exact (render_struct_ne style name params (by decide) _ h).elim
    | vector element => exact (render_struct_ne style name params (by decide) _ h).elim
    | struct name' params' =>
      obtain ⟨⟨hname, hdelimited⟩, hparams⟩ := AllNames.struct_iff.mp hs
      obtain ⟨⟨hname', hdelimited'⟩, hparams'⟩ := AllNames.struct_iff.mp ht
      have hends : ∀ (ps : List TypeTag) {tail : Text}, style.EndsTag tail →
          style.EndsName (renderParams style ps ++ tail) := by
        rintro (_ | ⟨p, ps⟩) tail htail
        · exact .inr htail
        · exact .inl ⟨_, rfl⟩
      rw [render_struct, render_struct, List.append_assoc, List.append_assoc] at h
      obtain ⟨hnames, h⟩ := StructName.render_append_inj hstyle hname hname' hdelimited hdelimited'
        (hends params hrest) (hends params' hrest') h
      obtain ⟨htags, hrest⟩ := renderParams_append_inj hstyle (fun p hp p' hp' _ _ =>
        ih p hp (hparams p hp) (hparams' p' hp')) hrest hrest' h
      rw [normalize, normalize, hnames, htags]
      exact ⟨rfl, hrest⟩

/-- **Tags have the same text exactly if they are the same** with all addresses in normal form, if
all of their names are delimited. -/
theorem render_eq_iff (hstyle : style.StartsWithComma) {s t : TypeTag}
    (hs : s.AllNames fun name => name.HasAddress ∧ name.IsDelimited style)
    (ht : t.AllNames fun name => name.HasAddress ∧ name.IsDelimited style) :
    s.render style = t.render style ↔ s.normalize = t.normalize := by
  constructor
  · intro h
    exact (render_append_inj hstyle hs ht (.inl rfl) (.inl rfl) (congrArg (· ++ []) h)).1
  · intro h
    rw [← (hs.imp fun _ hname => hname.1).render_normalize, h,
      (ht.imp fun _ hname => hname.1).render_normalize]

end TypeTag

end MoveText
