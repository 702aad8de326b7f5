import Mathlib.Data.List.Basic
import MoveText.Proofs.TypeTag.Layout
import MoveText.TypeTag.Render

/-!
# Tags in binary form and back

Addresses may be written in any spelling, but they are read in normal form, and a byte order mark in
front of a name is lost. `TypeTag.normalize` puts all addresses of a tag in normal form, which
changes neither its bytes nor its text. `TypeTag.readBack` also takes the marks away: it is what is
read of the bytes of a tag whose lengths can be written (`readBinary_of_isWritable`). For a tag that
fits the binary form, which has no marks, this is its normal form (`readBinary_encode_append`).
-/

namespace MoveText

open BinaryPart

/-! ### Tags that fit -/

/-- The length of the text can be written, and it does not start with a byte order mark. -/
structure Text.FitsBinary (s : Text) : Prop where
  unmarked : s.head? ≠ some byteOrderMark
  length_lt : (encodeUtf8 s).length < 2 ^ 53

/-- The address is one, in whatever spelling, and the names fit. -/
structure StructName.FitsBinary (name : StructName) : Prop where
  address : Address.isNormal (Address.normalize name.address)
  moduleName : Text.FitsBinary name.moduleName
  typeName : Text.FitsBinary name.typeName

/-- At every level the name fits, and the number of parameters can be written. -/
inductive TypeTag.FitsBinary : TypeTag → Prop
  | primitive (type : Primitive) : FitsBinary (.primitive type)
  | vector {element : TypeTag} (helement : FitsBinary element) : FitsBinary (.vector element)
  | struct {name : StructName} {params : List TypeTag} (hname : name.FitsBinary)
      (hcount : params.length < 2 ^ 32) (hparams : ∀ param ∈ params, FitsBinary param) :
      FitsBinary (.struct name params)

/-- Neither name starts with a byte order mark. -/
structure StructName.IsUnmarked (name : StructName) : Prop where
  moduleName : name.moduleName.head? ≠ some Text.byteOrderMark
  typeName : name.typeName.head? ≠ some Text.byteOrderMark

/-- The address of a struct type is one, in whatever spelling, and its lengths can be written. -/
structure StructTag.IsWritable (tag : StructTag) : Prop where
  address : tag.name.HasAddress
  moduleName : (Text.encodeUtf8 tag.name.moduleName).length < 2 ^ 53
  typeName : (Text.encodeUtf8 tag.name.typeName).length < 2 ^ 53
  params : tag.params.length < 2 ^ 32

namespace TypeTag

/-- All struct types in the tag can be written. -/
def IsWritable (tag : TypeTag) : Prop := ∀ s, tag.Holds s → s.IsWritable

theorem IsWritable.allNames {tag : TypeTag} (h : tag.IsWritable) :
    tag.AllNames StructName.HasAddress :=
  allNames_iff_holds.mpr fun s hs => (h s hs).address

private theorem isWritable_vector_iff {element : TypeTag} :
    (vector element).IsWritable ↔ element.IsWritable := by
  refine ⟨fun h s hs => h s (.vector hs), ?_⟩
  rintro h s (hs | _)
  exact h s hs

/-- **A tag fits** if it can be written and none of its names starts with a byte order mark. -/
theorem fitsBinary_iff {tag : TypeTag} :
    tag.FitsBinary ↔ tag.IsWritable ∧ tag.AllNames StructName.IsUnmarked := by
  constructor
  · intro h
    induction h with
    | primitive type => exact ⟨fun s hs => (nomatch hs), .primitive type⟩
    | vector _ ih => exact ⟨isWritable_vector_iff.mpr ih.1, .vector ih.2⟩
    | struct hname hcount _ ih =>
      have hself : StructTag.IsWritable ⟨_, _⟩ :=
        ⟨hname.address, hname.moduleName.length_lt, hname.typeName.length_lt, hcount⟩
      exact ⟨forall_holds_struct_iff.mpr ⟨hself, fun param hparam => (ih param hparam).1⟩,
        .struct ⟨hname.moduleName.unmarked, hname.typeName.unmarked⟩
          fun param hparam => (ih param hparam).2⟩
  · rintro ⟨hwritable, hunmarked⟩
    induction hunmarked with
    | primitive type => exact .primitive type
    | vector _ ih => exact .vector (ih (isWritable_vector_iff.mp hwritable))
    | struct hname _ ih =>
      obtain ⟨hself, hparams⟩ := forall_holds_struct_iff.mp hwritable
      exact .struct ⟨hself.address, ⟨hname.moduleName, hself.moduleName⟩,
        ⟨hname.typeName, hself.typeName⟩⟩ hself.params
          fun param hparam => ih param hparam (hparams param hparam)

instance (tag : StructTag) : Decidable tag.IsWritable :=
  have : Decidable tag.name.HasAddress := inferInstanceAs (Decidable (Address.isNormal _ = true))
  decidable_of_iff (tag.name.HasAddress ∧ (Text.encodeUtf8 tag.name.moduleName).length < 2 ^ 53 ∧
      (Text.encodeUtf8 tag.name.typeName).length < 2 ^ 53 ∧ tag.params.length < 2 ^ 32)
    ⟨fun h => ⟨h.1, h.2.1, h.2.2.1, h.2.2.2⟩, fun h => ⟨h.1, h.2, h.3, h.4⟩⟩

mutual

/-- Whether a tag can be written is decidable. -/
def decIsWritable : (tag : TypeTag) → Decidable tag.IsWritable
  | primitive _ => isTrue fun _ hs => nomatch hs
  | vector element =>
    match decIsWritable element with
    | isTrue h => isTrue (isWritable_vector_iff.mpr h)
    | isFalse h => isFalse (mt isWritable_vector_iff.mp h)
  | struct name params =>
    match (inferInstance : Decidable (StructTag.IsWritable ⟨name, params⟩)),
      decAllWritable params with
    | isTrue h, isTrue h' => isTrue (forall_holds_struct_iff.mpr ⟨h, h'⟩)
    | isFalse h, _ => isFalse fun hall => h (forall_holds_struct_iff.mp hall).1
    | _, isFalse h => isFalse fun hall => h (forall_holds_struct_iff.mp hall).2

/-- Whether all of some tags can be written is decidable. -/
def decAllWritable : (tags : List TypeTag) → Decidable (∀ tag ∈ tags, tag.IsWritable)
  | [] => isTrue (by simp)
  | tag :: tags =>
    match decIsWritable tag, decAllWritable tags with
    | isTrue h, isTrue h' => isTrue (List.forall_mem_cons.mpr ⟨h, h'⟩)
    | isFalse h, _ => isFalse fun hall => h (List.forall_mem_cons.mp hall).1
    | _, isFalse h => isFalse fun hall => h (List.forall_mem_cons.mp hall).2

end

instance : DecidablePred TypeTag.IsWritable := decIsWritable

theorem FitsBinary.isWritable {tag : TypeTag} (h : tag.FitsBinary) : tag.IsWritable :=
  (fitsBinary_iff.mp h).1

end TypeTag

/-! ### Normal forms -/

/-- The name with its address in normal form. -/
def StructName.normalize (name : StructName) : StructName :=
  { name with address := Address.normalize name.address }

/-- The tag with all of its addresses in normal form. -/
def TypeTag.normalize : TypeTag → TypeTag
  | primitive type => primitive type
  | vector element => vector (normalize element)
  | struct name params => struct name.normalize (params.map fun param => normalize param)

/-- The struct type with all of its addresses in normal form. -/
def StructTag.normalize (tag : StructTag) : StructTag :=
  ⟨tag.name.normalize, tag.params.map TypeTag.normalize⟩

private theorem StructName.encode_normalize (name : StructName) :
    name.normalize.encode = name.encode := by
  rw [encode, encode, normalize, Address.toBytes_normalize]

private theorem StructName.render_normalize {name : StructName} (h : name.HasAddress)
    (style : TagStyle) : name.normalize.render style = name.render style := by
  have haddress : style.address name.normalize.address = style.address name.address := by
    rw [TagStyle.address, TagStyle.address, normalize, Address.shorten_normalize,
      Address.normalize_of_isNormal h]
  rw [render, render, haddress, normalize]

namespace TypeTag

/-- The names in the normal form of a tag are the normal forms of its names. -/
theorem allNames_normalize_iff {P : StructName → Prop} {tag : TypeTag} :
    tag.normalize.AllNames P ↔ tag.AllNames fun name => P name.normalize := by
  induction tag using TypeTag.induction with
  | primitive type =>
    rw [normalize]
    exact iff_of_true (.primitive type) (.primitive type)
  | vector element ih => rw [normalize, AllNames.vector_iff, AllNames.vector_iff, ih]
  | struct name params ih =>
    rw [normalize, AllNames.struct_iff, AllNames.struct_iff, List.forall_mem_map]
    exact and_congr_right fun _ => forall₂_congr ih

/-- A tag and its normal form have the same depth. -/
theorem depth_normalize (tag : TypeTag) : tag.normalize.depth = tag.depth := by
  induction tag using TypeTag.induction with
  | primitive type => rw [normalize]
  | vector element ih => rw [normalize, depth, depth, ih]
  | struct name params ih =>
    rw [normalize, depth, depth]
    induction params with
    | nil => rfl
    | cons param params ihParams =>
      obtain ⟨hparam, hparams⟩ := List.forall_mem_cons.mp ih
      rw [List.map_cons, depthBelow, depthBelow, hparam, ihParams hparams]

private theorem encodeAll_eq_flatMap (tags : List TypeTag) :
    encodeAll tags = tags.flatMap encode := by
  induction tags with
  | nil => rfl
  | cons tag tags ih => rw [encodeAll, ih, List.flatMap_cons]

private theorem renderMore_eq_flatMap (style : TagStyle) (tags : List TypeTag) :
    renderMore style tags = tags.flatMap fun tag => style.separator ++ tag.render style := by
  induction tags with
  | nil => rfl
  | cons tag tags ih => rw [renderMore, ih, List.flatMap_cons]

/-- **A tag and its normal form have the same bytes**, if all of its addresses are such. -/
theorem AllNames.encode_normalize {tag : TypeTag} (h : tag.AllNames StructName.HasAddress) :
    tag.normalize.encode = tag.encode := by
  induction h with
  | primitive type => rw [normalize]
  | vector _ ih => rw [normalize, encode, encode, ih]
  | struct hname _ ih =>
    rw [normalize, encode, encode, StructName.encode_normalize, List.length_map,
      encodeAll_eq_flatMap, encodeAll_eq_flatMap, List.flatMap_map, List.flatMap_congr ih]

/-- **A tag and its normal form have the same text** in every style, if all of its addresses are
such. -/
theorem AllNames.render_normalize {tag : TypeTag} (h : tag.AllNames StructName.HasAddress)
    (style : TagStyle) : tag.normalize.render style = tag.render style := by
  induction h with
  | primitive type => rw [normalize]
  | vector _ ih => rw [normalize, render, render, ih]
  | @struct name params hname _ ih =>
    cases params with
    | nil => rw [normalize, List.map_nil, render, render, StructName.render_normalize hname]
    | cons param params =>
      obtain ⟨hparam, hparams⟩ := List.forall_mem_cons.mp ih
      rw [normalize, List.map_cons, render, render, StructName.render_normalize hname,
        hparam, renderMore_eq_flatMap, renderMore_eq_flatMap, List.flatMap_map,
        List.flatMap_congr fun param hmem => by rw [hparams param hmem]]

/-- A tag that fits and its normal form have the same bytes. -/
theorem encode_normalize {tag : TypeTag} (h : tag.FitsBinary) :
    tag.normalize.encode = tag.encode := h.isWritable.allNames.encode_normalize

/-- At full width a tag that fits and its normal form have the same text. -/
theorem render_normalize {tag : TypeTag} (h : tag.FitsBinary) {style : TagStyle}
    (_hstyle : style.fullAddresses) : tag.normalize.render style = tag.render style :=
  h.isWritable.allNames.render_normalize style

end TypeTag

theorem StructTag.normalize_toTypeTag (tag : StructTag) :
    tag.toTypeTag.normalize = tag.normalize.toTypeTag := by
  rw [toTypeTag, TypeTag.normalize]
  rfl

/-- A struct type and its normal form have the same bytes. -/
theorem StructTag.encode_normalize {tag : StructTag} (h : tag.toTypeTag.FitsBinary) :
    tag.normalize.encode = tag.encode := by
  have hbytes := TypeTag.encode_normalize h
  rw [normalize_toTypeTag, encode_toTypeTag, encode_toTypeTag] at hbytes
  exact List.append_cancel_left hbytes

/-! ### What is read of the bytes -/

/-- The name with its address in normal form, and without the byte order marks. -/
def StructName.readBack (name : StructName) : StructName where
  address := Address.normalize name.address
  moduleName := Text.unmarked name.moduleName
  typeName := Text.unmarked name.typeName

/-- The tag with all of its addresses in normal form, and without the byte order marks. -/
def TypeTag.readBack : TypeTag → TypeTag
  | primitive type => primitive type
  | vector element => vector (readBack element)
  | struct name params => struct name.readBack (params.map fun param => readBack param)

/-- The struct type with all of its addresses in normal form, and without the byte order marks. -/
def StructTag.readBack (tag : StructTag) : StructTag :=
  ⟨tag.name.readBack, tag.params.map TypeTag.readBack⟩

private theorem StructTag.readBack_toTypeTag (tag : StructTag) :
    tag.toTypeTag.readBack = tag.readBack.toTypeTag := by
  rw [toTypeTag, TypeTag.readBack]
  rfl

private theorem StructName.FitsBinary.readBack_eq {name : StructName} (h : name.FitsBinary) :
    name.readBack = name.normalize := by
  rw [readBack, Text.unmarked_of_head?_ne h.moduleName.unmarked,
    Text.unmarked_of_head?_ne h.typeName.unmarked, normalize]

/-- A tag that fits has no byte order marks that could be lost. -/
theorem TypeTag.FitsBinary.readBack_eq {tag : TypeTag} (h : tag.FitsBinary) :
    tag.readBack = tag.normalize := by
  induction h with
  | primitive type => rw [readBack, normalize]
  | vector _ ih => rw [readBack, normalize, ih]
  | struct hname _ _ ih => rw [readBack, normalize, hname.readBack_eq, List.map_congr_left ih]

private theorem StructName.exists_layout_encode {tag : StructTag} (h : tag.IsWritable) :
    ∃ parts, tag.name.readBack.Layout parts ∧ concat parts = tag.name.encode := by
  have hlayout := StructName.Layout.mk (Address.length_toBytes h.address) (Uleb.denotes_encode _)
    (Nat.le_pred_of_lt h.moduleName) (Uleb.denotes_encode _) (Nat.le_pred_of_lt h.typeName)
  rw [Address.ofBytes_toBytes h.address, Text.decodeText_encodeUtf8_eq,
    Text.decodeText_encodeUtf8_eq] at hlayout
  exact ⟨_, hlayout, by simp [BinaryPart.bytes, encode, encodeString]⟩

/-- The parameters of a struct type are laid out one after the other if each of them is. -/
private theorem TypeTag.exists_found {params : List TypeTag}
    (h : ∀ param ∈ params, ∃ parts, Layout parts param.readBack ∧ concat parts = param.encode) :
    ∃ found : List (List BinaryPart × TypeTag), (∀ p ∈ found, Layout p.1 p.2) ∧
      found.map Prod.snd = params.map readBack ∧
      concat (found.map Prod.fst).flatten = encodeAll params := by
  induction params with
  | nil => exact ⟨[], by simp, rfl, rfl⟩
  | cons param params ih =>
    obtain ⟨⟨parts, hparts, hbytes⟩, hparams⟩ := List.forall_mem_cons.mp h
    obtain ⟨found, hfound, hsnd, hfst⟩ := ih hparams
    refine ⟨(parts, param.readBack) :: found, List.forall_mem_cons.mpr ⟨hparts, hfound⟩, ?_, ?_⟩
    · rw [List.map_cons, List.map_cons, hsnd]
    · rw [List.map_cons, List.flatten_cons, concat_append, hbytes, hfst, encodeAll]

private theorem StructTag.exists_layout_of_params {tag : StructTag} (h : tag.IsWritable)
    (hparams : ∀ param ∈ tag.params,
      ∃ parts, TypeTag.Layout parts param.readBack ∧ concat parts = param.encode) :
    ∃ parts, Layout parts tag.readBack ∧ concat parts = tag.encode := by
  obtain ⟨nameParts, hnameParts, hnameBytes⟩ := StructName.exists_layout_encode h
  obtain ⟨found, hfound, hsnd, hfst⟩ := TypeTag.exists_found hparams
  have hlength : found.length = tag.params.length := by
    simpa using congrArg List.length hsnd
  have hle : found.length ≤ ByteReader.greatestCount := by
    rw [hlength]
    exact Nat.le_pred_of_lt h.params
  have hlayout := StructTag.LayoutWith.mk hnameParts (Uleb.denotes_encode _) hle hfound
  rw [hsnd] at hlayout
  refine ⟨_, hlayout, ?_⟩
  simp [BinaryPart.bytes, hnameBytes, hfst, hlength, encode]

/-- What is written for a tag is a layout of what is read back. -/
private theorem TypeTag.exists_layout_encode {tag : TypeTag} (h : tag.IsWritable) :
    ∃ parts, Layout parts tag.readBack ∧ concat parts = tag.encode := by
  induction tag using TypeTag.induction with
  | primitive type =>
    rw [readBack]
    exact ⟨_, .primitive (Uleb.denotes_encode _), by simp [BinaryPart.bytes, encode]⟩
  | vector element ih =>
    obtain ⟨parts, hparts, hbytes⟩ := ih fun s hs => h s (.vector hs)
    rw [readBack]
    exact ⟨_, .vector (Uleb.denotes_encode _) hparts, by simp [BinaryPart.bytes, encode, hbytes]⟩
  | struct name params ih =>
    obtain ⟨hself, hparams⟩ := forall_holds_struct_iff.mp h
    obtain ⟨parts, hparts, hbytes⟩ : ∃ parts, StructTag.Layout parts (.readBack ⟨name, params⟩) ∧
        concat parts = StructTag.encode ⟨name, params⟩ :=
      StructTag.exists_layout_of_params hself fun param hparam =>
        ih param hparam (hparams param hparam)
    rw [readBack]
    refine ⟨_, .struct (Uleb.denotes_encode _) hparts, ?_⟩
    rw [concat_cons, hbytes]
    exact (StructTag.encode_toTypeTag ⟨name, params⟩).symm

/-! ### Reading back -/

/-- **The bytes of a tag are read back**, whatever follows them. -/
theorem TypeTag.readBinary_of_isWritable {tag : TypeTag} (h : tag.IsWritable) (rest : Bytes) :
    readBinary (tag.encode ++ rest) = .ok (tag.readBack, rest) := by
  obtain ⟨parts, hlayout, hparts⟩ := exists_layout_encode h
  exact readBinary_eq_ok_iff.mpr ⟨parts, hlayout, by rw [hparts]⟩

/-- **Of the bytes of a tag that fits its normal form is read**, whatever follows them. -/
theorem TypeTag.readBinary_encode_append {tag : TypeTag} (h : tag.FitsBinary) (rest : Bytes) :
    readBinary (tag.encode ++ rest) = .ok (tag.normalize, rest) := by
  rw [readBinary_of_isWritable h.isWritable, h.readBack_eq]

/-- **The bytes of a struct type are read back**, whatever follows them. -/
theorem StructTag.readBinary_of_isWritable {tag : StructTag} (h : tag.toTypeTag.IsWritable)
    (rest : Bytes) : readBinary (tag.encode ++ rest) = .ok (tag.readBack, rest) := by
  obtain ⟨hself, hparams⟩ := TypeTag.forall_holds_struct_iff.mp h
  obtain ⟨parts, hlayout, hparts⟩ := exists_layout_of_params hself fun param hparam =>
    TypeTag.exists_layout_encode (hparams param hparam)
  exact readBinary_eq_ok_iff.mpr ⟨parts, hlayout, by rw [hparts]⟩

/-- A struct type that fits has no byte order marks that could be lost. -/
private theorem StructTag.readBack_eq {tag : StructTag} (h : tag.toTypeTag.FitsBinary) :
    tag.readBack = tag.normalize := by
  have hboth := h.readBack_eq
  rw [readBack_toTypeTag, normalize_toTypeTag] at hboth
  obtain ⟨hname, htags⟩ := TypeTag.struct.inj hboth
  rw [readBack, normalize]
  exact congrArg₂ StructTag.mk hname htags

/-- Of the bytes of a struct type that fits its normal form is read, whatever follows them. -/
theorem StructTag.readBinary_encode_append {tag : StructTag} (h : tag.toTypeTag.FitsBinary)
    (rest : Bytes) : readBinary (tag.encode ++ rest) = .ok (tag.normalize, rest) := by
  rw [readBinary_of_isWritable h.isWritable, readBack_eq h]

end MoveText
