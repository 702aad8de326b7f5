import MoveText.Proofs.TypeTag.Reading

/-!
# Well-formed tags

A tag is well formed if at every level the address is a normal form and the two names are
identifiers. The lexer does not give every identifier as a name: it takes no word that starts with
an underscore, and it takes the nine keywords for themselves. A plain name is neither.

What a derivation from the tokens of a text gives is well formed with plain names
(`TypeTag.Derives.wellFormed`, `TypeTag.Derives.plain`).
-/

namespace MoveText

/-- A name that starts with a letter and is no keyword. -/
def Identifier.IsPlain (s : Text) : Prop :=
  Text.startsIn Char.isAlpha s ∧ ∀ k : Keyword, k.spelling ≠ s

namespace StructName

/-- The address is in normal form and the names are identifiers. -/
structure WellFormed (name : StructName) : Prop where
  address : Address.isNormal name.address
  moduleName : Identifier.isValid name.moduleName
  typeName : Identifier.isValid name.typeName

/-- Both names are plain. -/
structure IsPlain (name : StructName) : Prop where
  moduleName : Identifier.IsPlain name.moduleName
  typeName : Identifier.IsPlain name.typeName

/-- The address is one, in whatever spelling. -/
def HasAddress (name : StructName) : Prop :=
  Address.isNormal (Address.normalize name.address)

theorem WellFormed.hasAddress {name : StructName} (h : name.WellFormed) : name.HasAddress := by
  rw [HasAddress, Address.normalize_of_isNormal h.address]
  exact h.address

end StructName

namespace TypeTag

/-- Induction over tags, with the hypothesis for all parameters of a struct type at once. -/
@[elab_as_elim]
theorem induction {motive : TypeTag → Prop} (primitive : ∀ type, motive (primitive type))
    (vector : ∀ element, motive element → motive (vector element))
    (struct : ∀ name params, (∀ param ∈ params, motive param) → motive (struct name params))
    (tag : TypeTag) : motive tag :=
  @TypeTag.rec motive (fun params => ∀ param ∈ params, motive param) primitive vector struct
    (by simp) (fun _ _ hparam hparams => List.forall_mem_cons.mpr ⟨hparam, hparams⟩) tag

/-- The names of all struct types in a tag have a property. -/
inductive AllNames (P : StructName → Prop) : TypeTag → Prop
  | primitive (type : Primitive) : AllNames P (.primitive type)
  | vector {element : TypeTag} (helement : AllNames P element) : AllNames P (.vector element)
  | struct {name : StructName} {params : List TypeTag} (hname : P name)
      (hparams : ∀ param ∈ params, AllNames P param) : AllNames P (.struct name params)

/-- At every level the address is in normal form and the names are identifiers. -/
def WellFormed (tag : TypeTag) : Prop := tag.AllNames StructName.WellFormed

namespace AllNames

variable {P Q : StructName → Prop}

theorem vector_iff {element : TypeTag} :
    (TypeTag.vector element).AllNames P ↔ element.AllNames P := by
  constructor
  · rintro (_ | helement | _)
    exact helement
  · exact .vector

theorem struct_iff {name : StructName} {params : List TypeTag} :
    (TypeTag.struct name params).AllNames P ↔ P name ∧ ∀ param ∈ params, param.AllNames P := by
  constructor
  · rintro (_ | _ | ⟨hname, hparams⟩)
    exact ⟨hname, hparams⟩
  · exact fun h => .struct h.1 h.2

/-- Two properties of all names are one of all names. -/
theorem and {tag : TypeTag} (hP : tag.AllNames P) (hQ : tag.AllNames Q) :
    tag.AllNames fun name => P name ∧ Q name := by
  induction hP with
  | primitive type => exact .primitive type
  | vector _ ih => exact .vector (ih (vector_iff.mp hQ))
  | struct hname _ ih =>
    obtain ⟨hname', hparams'⟩ := struct_iff.mp hQ
    exact .struct ⟨hname, hname'⟩ fun param hparam => ih param hparam (hparams' param hparam)

/-- A property of names may be weakened at every level. -/
theorem imp {tag : TypeTag} (h : tag.AllNames P) (hPQ : ∀ name, P name → Q name) :
    tag.AllNames Q := by
  induction h with
  | primitive type => exact .primitive type
  | vector _ ih => exact .vector ih
  | struct hname _ ih => exact .struct (hPQ _ hname) ih

end AllNames

/-! ### The struct types in a tag -/

/-- The struct types in a tag: those in its element if it is a vector, and itself and those in its
parameters if it is a struct type. -/
inductive Holds : TypeTag → StructTag → Prop
  | vector {element : TypeTag} {s : StructTag} (hholds : Holds element s) :
      Holds (.vector element) s
  | self (name : StructName) (params : List TypeTag) : Holds (.struct name params) ⟨name, params⟩
  | param {name : StructName} {params : List TypeTag} {param : TypeTag} {s : StructTag}
      (hparam : param ∈ params) (hholds : Holds param s) : Holds (.struct name params) s

theorem forall_holds_struct_iff {P : StructTag → Prop} {name : StructName}
    {params : List TypeTag} :
    (∀ s, (struct name params).Holds s → P s) ↔
      P ⟨name, params⟩ ∧ ∀ param ∈ params, ∀ s, param.Holds s → P s := by
  constructor
  · exact fun h => ⟨h _ (.self name params), fun param hparam s hs => h s (.param hparam hs)⟩
  · rintro ⟨hself, hparams⟩ s (_ | _ | ⟨hparam, hs⟩)
    · exact hself
    · exact hparams _ hparam s hs

/-- The names of all struct types in a tag have a property if all struct types in it have it of
their names. -/
theorem allNames_iff_holds {P : StructName → Prop} {tag : TypeTag} :
    tag.AllNames P ↔ ∀ s, tag.Holds s → P s.name := by
  induction tag using TypeTag.induction with
  | primitive type => exact iff_of_true (.primitive type) fun s hs => nomatch hs
  | vector element ih =>
    rw [AllNames.vector_iff, ih]
    exact ⟨fun h s hs => by cases hs with | vector hs => exact h s hs,
      fun h s hs => h s (.vector hs)⟩
  | struct name params ih =>
    rw [AllNames.struct_iff, forall_holds_struct_iff]
    exact and_congr_right fun _ => forall₂_congr ih

end TypeTag

/-! ### What a derivation gives -/

namespace Token

/-- The parameters stand in the brackets as they are. -/
theorem Bracketed.isInfix {stretches : List (List Token)} {brackets words : List Token}
    (h : Bracketed stretches brackets) (hwords : words ∈ stretches) : words <:+: brackets := by
  rcases h with _ | _ | ⟨-, extra⟩
  · cases hwords
  · cases hwords
  · exact (isInfix_listed hwords).trans
      ((List.prefix_append ..).isInfix.trans (List.suffix_cons ..).isInfix)

/-- A name token holds a plain name. -/
theorem Occurs.isPlain {s : Text} (h : Occurs ⟨.name, some s⟩) : Identifier.IsPlain s := by
  rcases h with h | ⟨word, h⟩
  · cases h
  · cases h with
    | name hc hrest hk => exact ⟨hc, hk⟩

end Token

namespace TypeTag.Derives

variable {limit depth : Nat} {words : List Token} {tag : TypeTag}

/-- A property of all names that literals and name tokens can make is one of all names in what the
tokens of a text derive. -/
private theorem allNames {P : StructName → Prop}
    (hname : ∀ digits moduleName typeName, (∀ c ∈ digits, Text.isHexDigit c) → digits.length ≤ 64 →
      Token.Occurs ⟨.name, some moduleName⟩ → Token.Occurs ⟨.name, some typeName⟩ →
        P ⟨Address.padded digits, moduleName, typeName⟩)
    (h : Derives limit depth words tag) (hwords : ∀ t ∈ words, t.Occurs) : tag.AllNames P := by
  induction h with
  | primitive _ type => exact .primitive type
  | vector _ _ ih => exact .vector (ih fun t ht => hwords t (by simp [ht]))
  | struct _ _ hdigits hlength hbrackets _ ih =>
    simp only [List.forall_mem_cons] at hwords
    obtain ⟨-, -, hmodule, -, htype, hwords⟩ := hwords
    refine .struct (hname _ _ _ hdigits hlength hmodule htype) fun param hparam => ?_
    obtain ⟨part, hpart, rfl⟩ := List.mem_map.mp hparam
    have hinside := hbrackets.isInfix (List.mem_map_of_mem hpart)
    exact ih part hpart fun t ht => hwords t (hinside.subset ht)

/-- What the tokens of a text derive is well formed. -/
theorem wellFormed (h : Derives limit depth words tag) (hwords : ∀ t ∈ words, t.Occurs) :
    tag.WellFormed := by
  refine h.allNames (fun _ _ _ hdigits hlength hmodule htype => ?_) hwords
  obtain ⟨_, ⟨⟩, hmoduleValid⟩ := hmodule.name_value
  obtain ⟨_, ⟨⟩, htypeValid⟩ := htype.name_value
  exact ⟨Address.isNormal_padded hdigits hlength, hmoduleValid, htypeValid⟩

/-- What the tokens of a text derive has plain names only. -/
theorem plain (h : Derives limit depth words tag) (hwords : ∀ t ∈ words, t.Occurs) :
    tag.AllNames StructName.IsPlain :=
  h.allNames (fun _ _ _ _ _ hmodule htype => ⟨hmodule.isPlain, htype.isPlain⟩) hwords

end TypeTag.Derives

end MoveText
