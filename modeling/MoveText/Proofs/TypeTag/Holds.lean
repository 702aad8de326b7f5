import MoveText.Proofs.TypeTag.View

/-!
# The struct types in a value and in its tag

A value that is written as a tag names one variant, so that the struct types in it
(`Value.TagHolds`) are those in the tag (`TypeTag.Holds`), and what is said of all of the former can
be said of all of the latter (`TypeTag.forall_tagHolds_iff`). The depth of such a value is that of
its tag (`TypeTag.tagDepth?_of_ofValue`). Addresses may be given in any way here, not only as texts.
-/

namespace MoveText

open Text

/-! ### One variant -/

theorem checkVariants_eq_ok_iff {layout : VariantLayout} {names : List Text} {v : Value} :
    checkVariants layout names v = .ok () ↔ v.isObject ∧ names.countP v.has = 1 := by
  rw [← checkObject_eq_ok_iff, checkVariants]
  cases checkObject v <;> simp [bind, Except.bind]

/-- What names a primitive type has no field for the parts of other tags. -/
private theorem TypeTag.fields_of_primitive {v : Value} {type : Primitive}
    (h : checkVariants .typeTag variantNames v = .ok ())
    (htype : Primitive.ofValue? v = some type) :
    v.field? tagFields.vector = none ∧ v.field? tagFields.struct = none := by
  obtain ⟨-, hcount⟩ := checkVariants_eq_ok_iff.mp h
  rw [Primitive.ofValue?] at htype
  have hlabel : v.has type.label := by simpa using List.find?_some htype
  have hpos : 0 < (Primitive.all.map Primitive.label).countP v.has := List.countP_pos_iff.mpr
    ⟨_, List.mem_map_of_mem (List.mem_of_find?_eq_some htype), hlabel⟩
  rw [variantNames, List.countP_append] at hcount
  have hzero : [tagFields.vector, tagFields.struct].countP v.has = 0 := by omega
  simpa [List.countP_eq_zero, Value.has] using hzero

/-- A vector has no field for a struct type. -/
private theorem TypeTag.field?_struct_of_vector {v element : Value}
    (h : checkVariants .typeTag variantNames v = .ok ())
    (hfield : v.field? tagFields.vector = some element) : v.field? tagFields.struct = none := by
  obtain ⟨-, hcount⟩ := checkVariants_eq_ok_iff.mp h
  have hvector : v.has tagFields.vector := by rw [Value.has, hfield]; rfl
  rw [variantNames, List.countP_append, List.countP_cons, List.countP_cons, List.countP_nil,
    if_pos hvector] at hcount
  by_contra hne
  have hstruct : v.has tagFields.struct := Option.isSome_iff_ne_none.mpr hne
  rw [if_pos hstruct] at hcount
  omega

/-! ### The same struct types -/

namespace TypeTag

/-- The struct types in a tag come from those in the value. -/
private theorem exists_tagHolds {v : Value} {tag : TypeTag} (h : ofValue v = .ok tag)
    {s : StructTag} (hs : tag.Holds s) : ∃ w, v.TagHolds w ∧ StructTag.ofValue w = .ok s := by
  induction hs generalizing v with
  | vector _ ih =>
    obtain ⟨-, -, element, hfield, helement⟩ := ofValue_eq_vector_iff.mp h
    obtain ⟨w, hw, hstruct⟩ := ih helement
    exact ⟨w, .vector hfield hw, hstruct⟩
  | self name params =>
    obtain ⟨-, -, -, value, hfield, hvalue⟩ := ofValue_eq_struct_iff.mp h
    exact ⟨value, .struct hfield (.self value), hvalue⟩
  | param hparam _ ih =>
    obtain ⟨-, -, -, value, hfield, hvalue⟩ := ofValue_eq_struct_iff.mp h
    obtain ⟨-, -, items, hitems, hall⟩ := StructTag.ofValue_eq_ok_iff.mp hvalue
    obtain ⟨item, hitem, hread⟩ := hall.exists_of_mem_right hparam
    obtain ⟨w, hw, hstruct⟩ := ih hread
    exact ⟨w, .struct hfield (.param hitems hitem hw), hstruct⟩

/-- The struct types in the value are those in the tag. -/
private theorem exists_holds {v : Value} {tag : TypeTag} (h : ofValue v = .ok tag) {w : Value}
    (hw : v.TagHolds w) : ∃ s, tag.Holds s ∧ StructTag.ofValue w = .ok s := by
  induction tag using TypeTag.induction generalizing v with
  | primitive type =>
    obtain ⟨hchecked, htype⟩ := ofValue_eq_primitive_iff.mp h
    obtain ⟨hvector, hstruct⟩ := fields_of_primitive hchecked htype
    cases hw with
    | vector hfield => cases hvector.symm.trans hfield
    | struct hfield => cases hstruct.symm.trans hfield
  | vector element ih =>
    obtain ⟨hchecked, -, value, hvalue, helement⟩ := ofValue_eq_vector_iff.mp h
    cases hw with
    | vector hfield hholds =>
      obtain rfl := Option.some.inj (hvalue.symm.trans hfield)
      obtain ⟨s, hs, hstruct⟩ := ih helement hholds
      exact ⟨s, .vector hs, hstruct⟩
    | struct hfield => cases (field?_struct_of_vector hchecked hvalue).symm.trans hfield
  | struct name params ih =>
    obtain ⟨-, -, hvector, value, hfield', hvalue⟩ := ofValue_eq_struct_iff.mp h
    cases hw with
    | vector hfield => cases hvector.symm.trans hfield
    | struct hfield hholds =>
      obtain rfl := Option.some.inj (hfield'.symm.trans hfield)
      cases hholds with
      | self => exact ⟨_, .self _ _, hvalue⟩
      | param hparams hitem hholds =>
        obtain ⟨-, -, items, hitems, hall⟩ := StructTag.ofValue_eq_ok_iff.mp hvalue
        obtain ⟨⟩ := Option.some.inj (hitems.symm.trans hparams)
        obtain ⟨param, hparam, hread⟩ := hall.exists_of_mem_left hitem
        obtain ⟨s, hs, hstruct⟩ := ih param hparam hread hholds
        exact ⟨s, .param hparam hs, hstruct⟩

/-- **What holds of all struct types in a value** holds of all struct types in its tag, put in terms
of these, and the other way round. -/
theorem forall_tagHolds_iff {v : Value} {tag : TypeTag} (h : ofValue v = .ok tag)
    {P : Value → Prop} {Q : StructTag → Prop}
    (hPQ : ∀ w s, StructTag.ofValue w = .ok s → (P w ↔ Q s)) :
    (∀ w, v.TagHolds w → P w) ↔ ∀ s, tag.Holds s → Q s := by
  constructor
  · intro hall s hs
    obtain ⟨w, hw, hstruct⟩ := exists_tagHolds h hs
    exact (hPQ w s hstruct).mp (hall w hw)
  · intro hall w hw
    obtain ⟨s, hs, hstruct⟩ := exists_holds h hw
    exact (hPQ w s hstruct).mpr (hall s hs)

/-! ### The same depth -/

private theorem tagDepthBelow?_of_forall₂ {items : List Value} {params : List TypeTag}
    (h : List.Forall₂ (fun item param => item.tagDepth? = some param.depth) items params) :
    Value.tagDepthBelow? items = some (depthBelow params) := by
  induction h with
  | nil => rw [Value.tagDepthBelow?, depthBelow]
  | cons hitem _ ih => rw [Value.tagDepthBelow?, hitem, ih, depthBelow]

private theorem tagDepth?_of_struct {v value : Value} {items : List Value} (hobject : v.isObject)
    (hvector : v.field? tagFields.vector = none) (hfield : v.field? tagFields.struct = some value)
    (hitems : value.field? tagFields.params = some (.list items)) :
    v.tagDepth? = Value.tagDepthBelow? items := by
  rw [Value.tagDepth?, if_pos hobject]
  split
  · next hfound => cases hvector.symm.trans hfound
  · split
    · next found hfound =>
      obtain rfl := Option.some.inj (hfield.symm.trans hfound)
      split
      · next params hparams =>
        obtain rfl := Option.some.inj (hitems.symm.trans hparams)
        split
        · next found hfound =>
          obtain rfl : items = found := Option.some.inj hfound
          rfl
        · next hnone => cases hnone
      · next hnone => cases hitems.symm.trans hnone
    · next hstruct => cases hfield.symm.trans hstruct

/-- **The depth of a value that is written as a tag** is that of the tag. -/
theorem tagDepth?_of_ofValue {v : Value} {tag : TypeTag} (h : ofValue v = .ok tag) :
    v.tagDepth? = some tag.depth := by
  induction tag using TypeTag.induction generalizing v with
  | primitive type =>
    obtain ⟨hchecked, htype⟩ := ofValue_eq_primitive_iff.mp h
    obtain ⟨hvector, hstruct⟩ := fields_of_primitive hchecked htype
    rw [Value.tagDepth?, if_pos (isObject_of_checkVariants hchecked)]
    split
    · next hfound => cases hvector.symm.trans hfound
    · split
      · next hfound => cases hstruct.symm.trans hfound
      · rw [depth]
  | vector element ih =>
    obtain ⟨hchecked, -, value, hfield, helement⟩ := ofValue_eq_vector_iff.mp h
    rw [Value.tagDepth?, if_pos (isObject_of_checkVariants hchecked)]
    split
    · next found hfound =>
      obtain rfl := Option.some.inj (hfield.symm.trans hfound)
      rw [ih helement, Option.map_some, depth]
    · next hvector => cases hfield.symm.trans hvector
  | struct name params ih =>
    obtain ⟨hchecked, -, hvector, value, hfield, hvalue⟩ := ofValue_eq_struct_iff.mp h
    obtain ⟨-, -, items, hitems, hall⟩ := StructTag.ofValue_eq_ok_iff.mp hvalue
    rw [tagDepth?_of_struct (isObject_of_checkVariants hchecked) hvector hfield hitems, depth]
    refine tagDepthBelow?_of_forall₂ ?_
    obtain ⟨hlength, hzip⟩ := List.forall₂_iff_zip.mp hall
    exact List.forall₂_iff_zip.mpr ⟨hlength, fun hmem =>
      ih _ (List.of_mem_zip hmem).2 (hzip hmem)⟩

end TypeTag

/-! ### What is said of struct types -/

namespace Value

/-- The module of a struct type, if it is a text, has one property, and its type name another. -/
structure HasNames (P Q : Text → Prop) (v : Value) : Prop where
  moduleName : ∀ s, v.field? tagFields.moduleName = some (.text s) → P s
  typeName : ∀ s, v.field? tagFields.typeName = some (.text s) → Q s

theorem hasNames_iff {P Q : Text → Prop} {v : Value} {tag : StructTag}
    (h : StructTag.ofValue v = .ok tag) :
    v.HasNames P Q ↔ P tag.name.moduleName ∧ Q tag.name.typeName := by
  obtain ⟨-, hname, -⟩ := StructTag.ofValue_eq_ok_iff.mp h
  obtain ⟨-, hmodule, htype⟩ := StructName.ofValue_eq_ok_iff.mp hname
  constructor
  · exact fun hnames => ⟨hnames.moduleName _ hmodule, hnames.typeName _ htype⟩
  · rintro ⟨hP, hQ⟩
    refine ⟨fun s hs => ?_, fun s hs => ?_⟩
    · cases hmodule.symm.trans hs
      exact hP
    · cases htype.symm.trans hs
      exact hQ

/-- The names of a struct type have fewer than 2 ^ 53 bytes, and it has fewer than 2 ^ 32
parameters. -/
structure IsSized (v : Value) : Prop where
  names : v.HasNames (fun s => (encodeUtf8 s).length < 2 ^ 53)
    fun s => (encodeUtf8 s).length < 2 ^ 53
  params : ∀ items, v.field? tagFields.params = some (.list items) → items.length < 2 ^ 32

end Value

/-- A struct type that is written can be written again if its lengths can. -/
theorem StructTag.isWritable_iff {v : Value} {tag : StructTag} (h : ofValue v = .ok tag) :
    v.IsSized ↔ tag.IsWritable := by
  obtain ⟨-, hname, items, hitems, hall⟩ := ofValue_eq_ok_iff.mp h
  obtain ⟨haddress, -, -⟩ := StructName.ofValue_eq_ok_iff.mp hname
  have hcount : (∀ found, v.field? tagFields.params = some (.list found) →
      found.length < 2 ^ 32) ↔ tag.params.length < 2 ^ 32 := by
    rw [← hall.length_eq]
    refine ⟨fun hfound => hfound items hitems, fun hlength found hfound => ?_⟩
    cases hitems.symm.trans hfound
    exact hlength
  constructor
  · intro hsized
    obtain ⟨hmodule, htype⟩ := (Value.hasNames_iff h).mp hsized.names
    exact ⟨Address.isNormal_of_ofValue haddress, hmodule, htype, hcount.mp hsized.params⟩
  · intro hwritable
    exact ⟨(Value.hasNames_iff h).mpr ⟨hwritable.moduleName, hwritable.typeName⟩,
      hcount.mpr hwritable.params⟩

/-- A value whose lengths can be written is written as a tag that can. -/
theorem TypeTag.isWritable_of_ofValue {v : Value} {tag : TypeTag} (h : ofValue v = .ok tag)
    (hsized : ∀ s, v.TagHolds s → s.IsSized) : tag.IsWritable :=
  (forall_tagHolds_iff h fun _ _ => StructTag.isWritable_iff).mp hsized

/-- So is a value that is written as a struct type. -/
theorem StructTag.isWritable_of_ofValue {v : Value} {tag : StructTag} (h : ofValue v = .ok tag)
    (hsized : ∀ s, v.StructHolds s → s.IsSized) : tag.toTypeTag.IsWritable := by
  obtain ⟨-, -, items, hitems, hall⟩ := ofValue_eq_ok_iff.mp h
  refine TypeTag.forall_holds_struct_iff.mpr
    ⟨(isWritable_iff h).mp (hsized v (.self v)), fun param hparam => ?_⟩
  obtain ⟨item, hitem, hread⟩ := hall.exists_of_mem_right hparam
  exact TypeTag.isWritable_of_ofValue hread fun s hs => hsized s (.param hitems hitem hs)

theorem TypeTag.isObject_toValue (tag : TypeTag) : (tag.toValue .plain).isObject :=
  isObject_of_checkVariants (checkVariants_toValue (.inl rfl) tag)

/-- The record of a tag that can be written has lengths that can be written. -/
theorem TypeTag.isSized_of_holds_toValue {tag : TypeTag} (h : tag.IsWritable) :
    ∀ s, (tag.toValue .plain).TagHolds s → s.IsSized :=
  (forall_tagHolds_iff (ofValue_toValue (.inl rfl) h.allNames) fun _ _ =>
    StructTag.isWritable_iff).mpr h

end MoveText
