import MoveText.Proofs.TypeTag.Input
import MoveText.Proofs.TypeTag.Normalized

/-!
# Values that are written both ways

A value that is written in binary form as a tag is rendered as the same tag
(`TypeTag.fitsBinary_of_ofValue`), although rendering goes by the first field that it knows and does
not check the value. Every struct type in the value (`Value.TagHolds`) has to be of the kind that
fits the binary form (`Value.FitsBinary`).
-/

namespace MoveText

mutual

/-- The struct types in a value that stands for a tag: those in its element if it is a vector, and
itself and those in its parameters if it is a struct type. -/
inductive Value.TagHolds : Value → Value → Prop
  | vector {v element s : Value} (hfield : v.field? tagFields.vector = some element)
      (hholds : TagHolds element s) : TagHolds v s
  | struct {v tag s : Value} (hfield : v.field? tagFields.struct = some tag)
      (hholds : StructHolds tag s) : TagHolds v s

/-- The struct types in a value that stands for a struct type. -/
inductive Value.StructHolds : Value → Value → Prop
  | self (v : Value) : StructHolds v v
  | param {v item s : Value} {items : List Value}
      (hfield : v.field? tagFields.params = some (.list items)) (hitem : item ∈ items)
      (hholds : TagHolds item s) : StructHolds v s

end

/-- The address of a struct type is given as a text, its names are short enough and do not start
with a byte order mark, and it has not too many parameters. -/
structure Value.FitsBinary (v : Value) : Prop where
  address : ∃ s, v.field? tagFields.address = some (.text s)
  moduleName : ∀ s, v.field? tagFields.moduleName = some (.text s) → Text.FitsBinary s
  typeName : ∀ s, v.field? tagFields.typeName = some (.text s) → Text.FitsBinary s
  params : ∀ items, v.field? tagFields.params = some (.list items) → items.length < 2 ^ 32

/-! ### What is rendered -/

namespace TypeTag

private theorem view?_of_primitive {v : Value} {type : Primitive}
    (h : Primitive.ofValue? v = some type) : view? v = some (.primitive type) := by
  rw [view?, h]

private theorem view?_of_vector {v element : Value} {tag : TypeTag}
    (hnone : Primitive.ofValue? v = none) (hfield : v.field? tagFields.vector = some element)
    (helement : view? element = some tag) : view? v = some (.vector tag) := by
  rw [view?, hnone]
  dsimp only
  split
  · next found hfound =>
    obtain rfl := Option.some.inj (hfield.symm.trans hfound)
    rw [helement, Option.map_some]
  · next hvector => cases hfield.symm.trans hvector

private theorem view?_of_struct {v value : Value} {tag : StructTag}
    (hnone : Primitive.ofValue? v = none) (hvector : v.field? tagFields.vector = none)
    (hfield : v.field? tagFields.struct = some value) (hvalue : StructTag.view? value = some tag) :
    view? v = some tag.toTypeTag := by
  rw [view?, hnone]
  dsimp only
  split
  · next found hfound => cases hvector.symm.trans hfound
  · split
    · next found hfound =>
      obtain rfl := Option.some.inj (hfield.symm.trans hfound)
      rw [hvalue, Option.map_some]
    · next hstruct => cases hfield.symm.trans hstruct

private theorem viewAll?_of_forall₂ {vs : List Value} {tags : List TypeTag}
    (h : List.Forall₂ (fun v tag => view? v = some tag) vs tags) : viewAll? vs = some tags := by
  induction h with
  | nil => rw [viewAll?]
  | cons hv _ ih => rw [viewAll?, hv, ih]

end TypeTag

private theorem StructTag.view?_of_params {v : Value} {tag : StructTag} {items : List Value}
    (hname : StructName.view? v = some tag.name)
    (hfield : v.field? tagFields.params = some (.list items))
    (hitems : List.Forall₂ (fun item param => TypeTag.view? item = some param) items tag.params) :
    StructTag.view? v = some tag := by
  rw [StructTag.view?, hname]
  split
  · next name params hname' hparams =>
    obtain rfl := Option.some.inj hname'
    obtain rfl := Option.some.inj (hfield.symm.trans hparams)
    split
    · next found hfound =>
      obtain rfl : items = found := Option.some.inj hfound
      rw [TypeTag.viewAll?_of_forall₂ hitems, Option.map_some]
    · next hnone => cases hnone
  · next hnot => exact (hnot _ _ rfl hfield).elim

/-- A name is rendered as it is written, if its address is given as a text. -/
theorem StructName.view?_of_ofValue {v : Value} {name : StructName}
    (h : StructName.ofValue v = .ok name)
    (haddress : ∃ s, v.field? tagFields.address = some (.text s)) :
    StructName.view? v = some name ∧ name.HasAddress ∧
      v.field? tagFields.address = some (.text name.address) := by
  obtain ⟨hnormal, hmodule, htype⟩ := StructName.ofValue_eq_ok_iff.mp h
  obtain ⟨s, hs⟩ := haddress
  rw [hs, Address.ofValue_text_eq_ok_iff] at hnormal
  obtain ⟨hnormal, rfl⟩ := hnormal
  rw [StructName.view?, hs, hmodule, htype]
  exact ⟨rfl, hnormal, rfl⟩

/-! ### What is written -/

/-- A struct type is rendered as it is written, and fits, if its parameters do. -/
private theorem StructTag.fitsBinary_of_params {v : Value} {tag : StructTag}
    (h : StructTag.ofValue v = .ok tag) (hfits : ∀ s, v.StructHolds s → s.FitsBinary)
    (hparams : ∀ param ∈ tag.params, ∀ item, TypeTag.ofValue item = .ok param →
      (∀ s, item.TagHolds s → s.FitsBinary) →
        param.FitsBinary ∧ TypeTag.view? item = some param) :
    tag.toTypeTag.FitsBinary ∧ StructTag.view? v = some tag := by
  obtain ⟨-, hname, items, hfield, hitems⟩ := StructTag.ofValue_eq_ok_iff.mp h
  have hself := hfits v (.self v)
  obtain ⟨hview, haddress, -⟩ := StructName.view?_of_ofValue hname hself.address
  obtain ⟨-, hmodule, htype⟩ := StructName.ofValue_eq_ok_iff.mp hname
  have hholds : ∀ item ∈ items, ∀ s, item.TagHolds s → s.FitsBinary := fun item hitem s hs =>
    hfits s (.param hfield hitem hs)
  have hboth : List.Forall₂ (fun param item => param.FitsBinary ∧ TypeTag.view? item = some param)
      tag.params items := by
    obtain ⟨hlength, hzip⟩ := List.forall₂_iff_zip.mp hitems
    -- an item and its parameter stand at one place, so each belongs to its list
    refine List.Forall₂.flip (List.forall₂_iff_zip.mpr ⟨hlength, fun hmem => ?_⟩)
    obtain ⟨hitem, hparam⟩ := List.of_mem_zip hmem
    exact hparams _ hparam _ (hzip hmem) (hholds _ hitem)
  obtain ⟨hparamsFit, hviews⟩ := (List.forall₂_and_left _ _).mp hboth
  have hcount := hself.params items hfield
  rw [hitems.length_eq] at hcount
  exact ⟨.struct ⟨haddress, hself.moduleName _ hmodule, hself.typeName _ htype⟩ hcount hparamsFit,
    StructTag.view?_of_params hview hfield hviews.flip⟩

/-- **A value that is written as a tag is rendered as this tag**, which fits the binary form. -/
theorem TypeTag.fitsBinary_of_ofValue {v : Value} {tag : TypeTag} (h : ofValue v = .ok tag)
    (hfits : ∀ s, v.TagHolds s → s.FitsBinary) : tag.FitsBinary ∧ view? v = some tag := by
  induction tag using TypeTag.induction generalizing v with
  | primitive type =>
    obtain ⟨-, htype⟩ := ofValue_eq_primitive_iff.mp h
    exact ⟨.primitive type, view?_of_primitive htype⟩
  | vector element ih =>
    obtain ⟨-, hnone, value, hfield, hvalue⟩ := ofValue_eq_vector_iff.mp h
    obtain ⟨helement, hview⟩ := ih hvalue fun s hs => hfits s (.vector hfield hs)
    exact ⟨.vector helement, view?_of_vector hnone hfield hview⟩
  | struct name params ih =>
    obtain ⟨-, hnone, hvector, value, hfield, hvalue⟩ := ofValue_eq_struct_iff.mp h
    obtain ⟨hstruct, hview⟩ := StructTag.fitsBinary_of_params hvalue
      (fun s hs => hfits s (.struct hfield hs)) fun param hparam item => ih param hparam
    exact ⟨hstruct, view?_of_struct hnone hvector hfield hview⟩

/-- A struct type is rendered as it is written, and fits. -/
theorem StructTag.fitsBinary_of_ofValue {v : Value} {tag : StructTag}
    (h : StructTag.ofValue v = .ok tag) (hfits : ∀ s, v.StructHolds s → s.FitsBinary) :
    tag.toTypeTag.FitsBinary :=
  (StructTag.fitsBinary_of_params h hfits fun _ _ _ => TypeTag.fitsBinary_of_ofValue).1

/-! ### The records of tags -/

/-- The record of a struct type is of the kind that fits if the struct type is. -/
private theorem StructName.fitsBinary_toValue {name : StructName} (h : name.FitsBinary)
    {items : List Value} (hcount : items.length < 2 ^ 32) :
    (name.toValue .plain (.list items)).FitsBinary where
  address := ⟨name.address, rfl⟩
  moduleName s hs := by
    rw [StructName.toValue, RecordStyle.name_eq (.inl rfl)] at hs
    cases hs
    exact h.moduleName
  typeName s hs := by
    rw [StructName.toValue, RecordStyle.name_eq (.inl rfl), RecordStyle.name_eq (.inl rfl)] at hs
    cases hs
    exact h.typeName
  params found hfound := by
    cases hfound
    exact hcount

/-- All struct types in the record of a tag that fits are of the kind that fits. -/
theorem TypeTag.fitsBinary_of_holds_toValue {tag : TypeTag} (h : tag.FitsBinary) {s : Value}
    (hs : (tag.toValue .plain).TagHolds s) : s.FitsBinary := by
  induction h with
  | primitive type => cases hs <;> next hfield _ => cases type <;> cases hfield
  | vector _ ih =>
    cases hs with
    | vector hfield hholds =>
      cases hfield
      exact ih hholds
    | struct hfield => cases hfield
  | @struct name params hname hcount _ ih =>
    cases hs with
    | vector hfield => cases hfield
    | struct hfield hholds =>
      cases hfield
      cases hholds with
      | self =>
        refine StructName.fitsBinary_toValue hname ?_
        rwa [toValues_eq_map, List.length_map]
      | param hfield hitem hholds =>
        cases hfield
        rw [toValues_eq_map] at hitem
        obtain ⟨param, hparam, rfl⟩ := List.mem_map.mp hitem
        exact ih param hparam hholds

end MoveText
