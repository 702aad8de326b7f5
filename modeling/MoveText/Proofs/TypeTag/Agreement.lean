import MoveText.Proofs.TypeTag.RoundTrip
import MoveText.Proofs.TypeTag.View

/-!
# The binary and the textual form of a tag agree

A value that is written in binary form as a tag is read back as the text that it is rendered as at
full width, and a struct type is read back as itself with normal addresses
(`TypeTag.binary_agrees_with_text`). All that the parser gives can be written.
-/

namespace MoveText

/-- The options that ask for addresses at full width. -/
def TagStyle.fullOptions : Value := .record [(fullAddressesName, .bool true)]

theorem TagStyle.ofValue?_fullOptions : ofValue? (some fullOptions) = some .full := rfl

/-! ### Normal forms can be written -/

/-- At every level of the normal form of a tag the address is one. -/
private theorem TypeTag.FitsBinary.allNames_normalize {tag : TypeTag} (h : tag.FitsBinary) :
    tag.normalize.AllNames StructName.HasAddress :=
  allNames_normalize_iff.mpr <| h.isWritable.allNames.imp fun name hname => by
    rw [StructName.HasAddress, StructName.normalize, Address.normalize_of_isNormal hname]
    exact hname

namespace TypeTag

/-- The items of a struct type and the parameters that are read for them have the same bytes. -/
theorem serialize_items {items : List Value} {params : List TypeTag}
    (hitems : List.Forall₂ (fun item param => ofValue item = .ok param) items params)
    (hparams : ∀ param ∈ params, param.FitsBinary) :
    List.Forall₂ (fun item param => ∃ bytes, (serialize item).result = .ok bytes ∧
      (serialize (param.toValue .labelled)).result = .ok bytes) items (params.map normalize) := by
  rw [List.forall₂_map_right_iff]
  obtain ⟨hlength, hzip⟩ := List.forall₂_iff_zip.mp hitems
  refine List.forall₂_iff_zip.mpr ⟨hlength, @fun item param hmem => ?_⟩
  have hitem := hzip hmem
  have hparam := hparams param (List.of_mem_zip hmem).2
  have hobject := isObject_of_checkVariants (ofValue_eq_ok_iff.mp hitem).1
  refine ⟨param.encode, ?_, ?_⟩
  · rw [serialize_of_isObject hobject, hitem]
    rfl
  · rw [serialize_toValue (.inr rfl) hparam.allNames_normalize, encode_normalize hparam]

/-- What the parser gives has addresses in normal form. -/
private theorem allNames_of_parse {options : Option Value} {input : Text} {tag : TypeTag}
    (h : (parse options input).result = .ok tag) : tag.AllNames StructName.HasAddress := by
  obtain ⟨limit, hleast, hgreatest, hparse⟩ := exists_limit_of_parse h
  exact (image_of_parse hleast hgreatest hparse).1.imp fun _ => StructName.WellFormed.hasAddress

/-- **The binary and the textual form of a tag agree.** If a record is written in binary form as a
tag, and all struct types in it are of the kind that fits, then its bytes are read as the text that
it is rendered as with addresses at full width, whatever follows them. For a record of a struct type
they are read as the struct type with its address in normal form, the same names, and parameters
that have the same bytes, as has the whole. And what the parser gives, under any options, is
written. -/
theorem binary_agrees_with_text :
    (∀ v bytes, v.isObject → (∀ s, v.TagHolds s → s.FitsBinary) →
      (serialize v).result = .ok bytes →
      ∃ text, renderView? (TagStyle.ofValue? (some TagStyle.fullOptions)) v = some text ∧
        ∀ rest, textOfBinary (bytes ++ rest) = .ok text) ∧
    (∀ v bytes, (∀ s, v.StructHolds s → s.FitsBinary) → StructTag.serialize v = .ok bytes →
      ∃ address moduleName typeName items params,
        v.field? tagFields.address = some (.text address) ∧
        v.field? tagFields.moduleName = some (.text moduleName) ∧
        v.field? tagFields.typeName = some (.text typeName) ∧
        v.field? tagFields.params = some (.list items) ∧
        let tag : StructTag := ⟨⟨Address.normalize address, moduleName, typeName⟩, params⟩
        (∀ rest, StructTag.readBinary (bytes ++ rest) = .ok (tag, rest)) ∧
        List.Forall₂ (fun item param => ∃ paramBytes, (serialize item).result = .ok paramBytes ∧
          (serialize (param.toValue .labelled)).result = .ok paramBytes) items params ∧
        StructTag.serialize (tag.toValue .labelled) = .ok bytes) ∧
    ∀ options input tag, (parse options input).result = .ok tag →
      (∃ bytes, (serialize (tag.toValue .plain)).result = .ok bytes) ∧
      ∀ name params, tag = struct name params →
        ∃ bytes, StructTag.serialize (StructTag.toValue .plain ⟨name, params⟩) = .ok bytes := by
  refine ⟨fun v bytes hobject hfits hwritten => ?_, fun v bytes hfits hwritten => ?_,
    fun options input tag hparse => ?_⟩
  · rw [serialize_of_isObject hobject] at hwritten
    obtain ⟨tag, htag, rfl⟩ := Except.map_eq_ok_iff.mp hwritten
    obtain ⟨hfit, hview⟩ := fitsBinary_of_ofValue htag hfits
    refine ⟨tag.render .full, ?_, fun rest => ?_⟩
    · simp only [renderView?, TagStyle.ofValue?_fullOptions, hview]
    · rw [textOfBinary, readBinary_encode_append hfit]
      exact congrArg Except.ok (render_normalize hfit rfl)
  · obtain ⟨tag, htag, rfl⟩ := StructTag.exists_of_serialize hwritten
    obtain ⟨-, hname, items, hfield, hitems⟩ := StructTag.ofValue_eq_ok_iff.mp htag
    have hfit := StructTag.fitsBinary_of_ofValue htag hfits
    obtain _ | _ | ⟨-, -, hparams⟩ := id hfit
    obtain ⟨-, hmodule, htype⟩ := StructName.ofValue_eq_ok_iff.mp hname
    obtain ⟨-, -, haddress⟩ := StructName.view?_of_ofValue hname (hfits v (.self v)).address
    have hnames : tag.normalize.toTypeTag.AllNames StructName.HasAddress :=
      StructTag.normalize_toTypeTag tag ▸ hfit.allNames_normalize
    refine ⟨_, _, _, items, tag.params.map normalize, haddress, hmodule, htype, hfield,
      StructTag.readBinary_encode_append hfit, serialize_items hitems hparams, ?_⟩
    exact (StructTag.serialize_toValue (.inr rfl) hnames).trans
      (congrArg Except.ok (StructTag.encode_normalize hfit))
  · have hnames := allNames_of_parse hparse
    refine ⟨⟨_, serialize_toValue (.inl rfl) hnames⟩, ?_⟩
    rintro name params rfl
    exact ⟨_, StructTag.serialize_toValue (.inl rfl) hnames⟩

/-- A struct type with a parameter, whose address is given without leading zeros. -/
theorem binary_agrees_with_text_pair :
    let v := toValue .plain (struct ⟨"0x2".toList, ['M'], ['T']⟩ [primitive .bool])
    v.isObject ∧ (∀ s, v.TagHolds s → s.FitsBinary) ∧ ∃ bytes text,
      (serialize v).result = .ok bytes ∧
      renderView? (TagStyle.ofValue? (some TagStyle.fullOptions)) v = some text ∧
      ∀ rest, textOfBinary (bytes ++ rest) = .ok text := by
  have hname : StructName.FitsBinary ⟨"0x2".toList, ['M'], ['T']⟩ :=
    ⟨by decide, ⟨by decide, by decide⟩, ⟨by decide, by decide⟩⟩
  have hfit : (struct ⟨"0x2".toList, ['M'], ['T']⟩ [primitive .bool]).FitsBinary :=
    .struct hname (by decide) (by simpa using .primitive .bool)
  have hnames : (struct ⟨"0x2".toList, ['M'], ['T']⟩ [primitive .bool]).AllNames
      StructName.HasAddress := .struct hname.address (by simpa using .primitive .bool)
  have hwritten := serialize_toValue (.inl rfl) hnames
  have hfits := fun s => fitsBinary_of_holds_toValue hfit (s := s)
  obtain ⟨text, htext, hread⟩ := binary_agrees_with_text.1 _ _ rfl hfits hwritten
  exact ⟨rfl, hfits, _, text, hwritten, htext, hread⟩

end TypeTag

end MoveText
