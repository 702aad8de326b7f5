import MoveText.Binary.Input
import MoveText.ForMathlib
import MoveText.Proofs.Address.Bytes
import MoveText.Proofs.TypeTag.WellFormed

/-!
# Values as tags

When a value is a tag that can be written in binary form is said by `TypeTag.ofValue_eq_ok_iff` and
`StructTag.ofValue_eq_ok_iff`, with one case for each sort of tags. The record of a tag is this tag
(`TypeTag.ofValue_toValue`), provided that its addresses can be taken.
-/

namespace MoveText

/-! ### When a value is a tag -/

theorem checkObject_eq_ok_iff {v : Value} : checkObject v = .ok () ↔ v.isObject := by
  rw [checkObject]
  split_ifs with h <;> simp [h]

theorem isObject_of_checkVariants {layout : VariantLayout} {names : List Text} {v : Value}
    (h : checkVariants layout names v = .ok ()) : v.isObject := by
  obtain ⟨_, hobject, -⟩ := Except.bind_eq_ok_iff.mp h
  exact checkObject_eq_ok_iff.mp hobject

theorem stringOfValue_eq_ok_iff {v : Option Value} {s : Text} :
    stringOfValue v = .ok s ↔ v = some (.text s) := by
  unfold stringOfValue
  split
  · simp
  · next hnot =>
    refine iff_of_false (by simp) fun h => hnot s h

theorem itemsOfValue_eq_ok_iff {v : Option Value} {items : List Value} :
    itemsOfValue v = .ok items ↔ v = some (.list items) := by
  cases v with
  | none => simp [itemsOfValue]
  | some v => cases v <;> simp [itemsOfValue, Value.items?]

theorem Address.ofValue_text_eq_ok_iff {s address : Text} :
    Address.ofValue (some (.text s)) = .ok address ↔ isNormal (normalize s) ∧ s = address := by
  rw [Address.ofValue]
  split_ifs with h <;> simp [h]

/-- Whatever is taken for an address is one. -/
theorem Address.isNormal_of_ofValue {v : Option Value} {address : Text}
    (h : ofValue v = .ok address) : isNormal (normalize address) := by
  have hshown : ∀ {digits : Text} {bytes : Bytes}, ofShownBytes digits bytes = .ok address →
      isNormal (normalize address) := by
    intro digits bytes hbytes
    rw [ofShownBytes] at hbytes
    split_ifs at hbytes with hdigits hlength
    cases hbytes
    exact isNormal_ofBytes (not_not.mp hlength)
  unfold ofValue at h
  split at h
  · split_ifs at h with hnormal
    cases h
    exact hnormal
  · exact hshown h
  · split at h
    · exact hshown h
    · cases h
  · cases h

theorem StructName.ofValue_eq_ok_iff {v : Value} {name : StructName} :
    StructName.ofValue v = .ok name ↔
      Address.ofValue (v.field? tagFields.address) = .ok name.address ∧
      v.field? tagFields.moduleName = some (.text name.moduleName) ∧
      v.field? tagFields.typeName = some (.text name.typeName) := by
  obtain ⟨address, moduleName, typeName⟩ := name
  simp only [← stringOfValue_eq_ok_iff, StructName.ofValue]
  cases Address.ofValue (v.field? tagFields.address) <;>
    cases stringOfValue (v.field? tagFields.moduleName) <;>
      cases stringOfValue (v.field? tagFields.typeName) <;>
        simp [bind, Except.bind, pure, Except.pure]

theorem TypeTag.allOfValues_eq_ok_iff {vs : List Value} {tags : List TypeTag} :
    allOfValues vs = .ok tags ↔ List.Forall₂ (fun v tag => ofValue v = .ok tag) vs tags := by
  induction vs generalizing tags with
  | nil => cases tags <;> simp [allOfValues]
  | cons v vs ih =>
    rw [allOfValues]
    cases hv : ofValue v with
    | error fault => cases tags <;> simp [hv]
    | ok tag =>
      cases hvs : allOfValues vs with
      | error fault => cases tags <;> simp [Except.map, ← ih, hv, hvs]
      | ok others => cases tags <;> simp [Except.map, ← ih, hv, hvs]

/-- A value is a struct type if it is a record of a name and of a list of tags. -/
theorem StructTag.ofValue_eq_ok_iff {v : Value} {tag : StructTag} :
    StructTag.ofValue v = .ok tag ↔ v.isObject ∧ StructName.ofValue v = .ok tag.name ∧
      ∃ items, v.field? tagFields.params = some (.list items) ∧
        List.Forall₂ (fun item param => TypeTag.ofValue item = .ok param) items tag.params := by
  rw [StructTag.ofValue, ← checkObject_eq_ok_iff]
  split
  · next fault hobject => simp [hobject]
  · next hobject =>
    split
    · next fault hname => simp [hname]
    · next name hname =>
      split
      · next fault hitems =>
        refine iff_of_false (by simp) ?_
        rintro ⟨-, -, items, hfield, -⟩
        cases hitems.symm.trans (itemsOfValue_eq_ok_iff.mpr hfield)
      · next items hitems =>
        have hfield := itemsOfValue_eq_ok_iff.mp hitems
        obtain ⟨tagName, params⟩ := tag
        simpa [hobject, hname, hfield, ← TypeTag.allOfValues_eq_ok_iff, Except.map_eq_ok_iff,
          @eq_comm _ tagName] using and_comm

/-- **A value is a tag** if it names one variant, and what it names is of that sort. -/
theorem TypeTag.ofValue_eq_ok_iff {v : Value} {tag : TypeTag} :
    TypeTag.ofValue v = .ok tag ↔ checkVariants .typeTag variantNames v = .ok () ∧
      ((∃ type, Primitive.ofValue? v = some type ∧ tag = .primitive type) ∨
      (Primitive.ofValue? v = none ∧ ∃ element tag', v.field? tagFields.vector = some element ∧
        TypeTag.ofValue element = .ok tag' ∧ tag = .vector tag') ∨
      (Primitive.ofValue? v = none ∧ v.field? tagFields.vector = none ∧
        ∃ value tag', v.field? tagFields.struct = some value ∧
          StructTag.ofValue value = .ok tag' ∧ tag = tag'.toTypeTag)) := by
  rw [TypeTag.ofValue]
  split
  · next fault hchecked => simp [hchecked]
  · next hchecked =>
    split
    · next type htype => simp [hchecked, htype, eq_comm]
    · next hnone =>
      split
      · next element hfield =>
        simp [hchecked, hnone, hfield, Except.map_eq_ok_iff]
      · next hvector =>
        split
        · next value hfield =>
          simp [hchecked, hnone, hvector, hfield, Except.map_eq_ok_iff]
        · next hstruct => simp [hnone, hvector, hstruct]

/-! ### The sorts of tags -/

theorem TypeTag.ofValue_eq_primitive_iff {v : Value} {type : Primitive} :
    TypeTag.ofValue v = .ok (.primitive type) ↔
      checkVariants .typeTag variantNames v = .ok () ∧ Primitive.ofValue? v = some type := by
  rw [TypeTag.ofValue_eq_ok_iff]
  simp [StructTag.toTypeTag]

theorem TypeTag.ofValue_eq_vector_iff {v : Value} {element : TypeTag} :
    TypeTag.ofValue v = .ok (.vector element) ↔
      checkVariants .typeTag variantNames v = .ok () ∧ Primitive.ofValue? v = none ∧
        ∃ value, v.field? tagFields.vector = some value ∧ TypeTag.ofValue value = .ok element := by
  rw [TypeTag.ofValue_eq_ok_iff]
  simp [StructTag.toTypeTag]

theorem TypeTag.ofValue_eq_struct_iff {v : Value} {name : StructName} {params : List TypeTag} :
    TypeTag.ofValue v = .ok (.struct name params) ↔
      checkVariants .typeTag variantNames v = .ok () ∧ Primitive.ofValue? v = none ∧
        v.field? tagFields.vector = none ∧ ∃ value, v.field? tagFields.struct = some value ∧
          StructTag.ofValue value = .ok ⟨name, params⟩ := by
  rw [TypeTag.ofValue_eq_ok_iff]
  constructor
  · rintro ⟨hchecked, ⟨_, -, ⟨⟩⟩ | ⟨-, _, _, -, -, ⟨⟩⟩ | ⟨hnone, hvector, value, _, hfield, h, ⟨⟩⟩⟩
    exact ⟨hchecked, hnone, hvector, value, hfield, h⟩
  · rintro ⟨hchecked, hnone, hvector, value, hfield, hvalue⟩
    exact ⟨hchecked, .inr (.inr ⟨hnone, hvector, value, _, hfield, hvalue, rfl⟩)⟩

/-! ### The records of tags -/

section Records

variable {style : RecordStyle}

/-- In the styles in which tags are handed out an empty name is an empty text. -/
theorem RecordStyle.name_eq (hstyle : style = .plain ∨ style = .labelled) (s : Text) :
    style.name s = .text s := by
  have hempty : style.emptyName = .text [] := by rcases hstyle with rfl | rfl <;> rfl
  cases s with
  | nil => exact hempty
  | cons c s => rfl

theorem TypeTag.toValues_eq_map (style : RecordStyle) (tags : List TypeTag) :
    toValues style tags = tags.map (toValue style) := by
  induction tags with
  | nil => rfl
  | cons tag tags ih => rw [toValues, ih, List.map_cons]

theorem TypeTag.checkVariants_toValue (hstyle : style = .plain ∨ style = .labelled)
    (tag : TypeTag) : checkVariants .typeTag variantNames (tag.toValue style) = .ok () := by
  rcases hstyle with rfl | rfl <;> rcases tag with ⟨_ | _ | _ | _ | _ | _⟩ | _ | _ <;> rfl

theorem StructName.ofValue_toValue (hstyle : style = .plain ∨ style = .labelled)
    {name : StructName} (h : name.HasAddress) (params : Value) :
    StructName.ofValue (name.toValue style params) = .ok name :=
  StructName.ofValue_eq_ok_iff.mpr ⟨if_pos h, congrArg some (style.name_eq hstyle _),
    congrArg some (style.name_eq hstyle _)⟩

/-- The record of a struct type is the struct type if those of its parameters are these. -/
private theorem StructTag.ofValue_toValue_of_params (hstyle : style = .plain ∨ style = .labelled)
    {tag : StructTag} (hname : tag.name.HasAddress)
    (hparams : ∀ param ∈ tag.params, TypeTag.ofValue (param.toValue style) = .ok param) :
    StructTag.ofValue (tag.toValue style) = .ok tag := by
  refine StructTag.ofValue_eq_ok_iff.mpr ⟨rfl, StructName.ofValue_toValue hstyle hname _,
    TypeTag.toValues style tag.params, rfl, ?_⟩
  rw [TypeTag.toValues_eq_map, List.forall₂_map_left_iff, List.forall₂_same]
  exact hparams

/-- **The record of a tag is the tag.** -/
theorem TypeTag.ofValue_toValue (hstyle : style = .plain ∨ style = .labelled) {tag : TypeTag}
    (h : tag.AllNames StructName.HasAddress) : ofValue (tag.toValue style) = .ok tag := by
  induction h with
  | primitive type =>
    refine TypeTag.ofValue_eq_primitive_iff.mpr ⟨checkVariants_toValue hstyle _, ?_⟩
    rcases hstyle with rfl | rfl <;> cases type <;> rfl
  | @vector element _ ih =>
    refine TypeTag.ofValue_eq_vector_iff.mpr ⟨checkVariants_toValue hstyle _, ?_⟩
    rcases hstyle with rfl | rfl <;> exact ⟨rfl, _, rfl, ih⟩
  | @struct name params hname _ ih =>
    have htag : StructTag.ofValue (StructTag.toValue style ⟨name, params⟩) = .ok ⟨name, params⟩ :=
      StructTag.ofValue_toValue_of_params hstyle hname ih
    refine TypeTag.ofValue_eq_struct_iff.mpr ⟨checkVariants_toValue hstyle _, ?_⟩
    rcases hstyle with rfl | rfl <;> exact ⟨rfl, rfl, _, rfl, htag⟩

/-- Only a text is parsed. -/
theorem TypeTag.serialize_of_ne_text {v : Value} (h : ∀ input, v ≠ .text input) :
    serialize v = ⟨(ofValue v).map encode, []⟩ := by
  cases v with
  | text input => exact absurd rfl (h input)
  | _ => rfl

/-- A value in which fields can be looked up is not parsed. -/
theorem TypeTag.serialize_of_isObject {v : Value} (h : v.isObject) :
    serialize v = ⟨(ofValue v).map encode, []⟩ := by
  refine serialize_of_ne_text ?_
  rintro input rfl
  cases h

/-- The record of a tag is written as the tag. -/
theorem TypeTag.serialize_toValue (hstyle : style = .plain ∨ style = .labelled) {tag : TypeTag}
    (h : tag.AllNames StructName.HasAddress) :
    (serialize (tag.toValue style)).result = .ok tag.encode := by
  have hobject := isObject_of_checkVariants (checkVariants_toValue hstyle tag)
  rw [serialize_of_isObject hobject, ofValue_toValue hstyle h]
  rfl

/-- A struct type on its own is taken if it is taken as a part of a tag: the digits of its address
are looked at once more. -/
theorem StructTag.serialize_of_ofValue {v : Value} {tag : StructTag}
    (h : StructTag.ofValue v = .ok tag)
    (haddress : ∃ s, v.field? tagFields.address = some (.text s)) :
    StructTag.serialize v = .ok tag.encode := by
  obtain ⟨s, hs⟩ := haddress
  obtain ⟨hobject, hname, -⟩ := StructTag.ofValue_eq_ok_iff.mp h
  have hnormal := (StructName.ofValue_eq_ok_iff.mp hname).1
  rw [hs, Address.ofValue_text_eq_ok_iff] at hnormal
  have hdigits : (Address.normalDigits s).all Text.isHexDigit := List.all_eq_true.mpr fun c hc =>
    Text.isHexDigit_of_isLowerHexDigit ((Address.isNormal_normalize_iff.mp hnormal.1).1 c hc)
  have hchecked : checkAddressDigits v = .ok () := by
    rw [checkAddressDigits, hs]
    exact if_pos hdigits
  have hwhole : ofWholeValue v = .ok tag := by
    rw [ofWholeValue, checkObject_eq_ok_iff.mpr hobject, hchecked]
    exact h
  rw [serialize, hwhole]
  rfl

/-- What is taken on its own is taken as a part of a tag. -/
theorem StructTag.exists_of_serialize {v : Value} {bytes : Bytes} (h : serialize v = .ok bytes) :
    ∃ tag, StructTag.ofValue v = .ok tag ∧ bytes = tag.encode := by
  obtain ⟨tag, hwhole, rfl⟩ := Except.map_eq_ok_iff.mp h
  obtain ⟨_, -, hwhole⟩ := Except.bind_eq_ok_iff.mp hwhole
  obtain ⟨_, -, htag⟩ := Except.bind_eq_ok_iff.mp hwhole
  exact ⟨tag, htag, rfl⟩

/-- The record of a struct type is written as the struct type. -/
theorem StructTag.serialize_toValue (hstyle : style = .plain ∨ style = .labelled) {tag : StructTag}
    (h : tag.toTypeTag.AllNames StructName.HasAddress) :
    serialize (tag.toValue style) = .ok tag.encode := by
  obtain ⟨hname, hparams⟩ := TypeTag.AllNames.struct_iff.mp h
  refine serialize_of_ofValue (ofValue_toValue_of_params hstyle hname fun param hparam => ?_)
    ⟨tag.name.address, rfl⟩
  exact TypeTag.ofValue_toValue hstyle (hparams param hparam)

end Records

end MoveText
