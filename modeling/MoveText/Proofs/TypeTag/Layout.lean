import MoveText.Proofs.Address.Bytes
import MoveText.Proofs.Binary.Part
import MoveText.Proofs.TypeTag.WellFormed
import MoveText.TypeTag.Render

/-!
# The binary form of type tags

`TypeTag.Layout` and `StructTag.Layout` say which parts the bytes of a tag or of a struct type may
have, whether or not they are as they would be written. Reading finds a tag exactly where it is laid
out (`readBinary_eq_ok_iff`), since the levels that the reader may go down do not run out before the
bytes do. What is written for a tag that is laid out is the one layout whose parts are all canonical
(`Layout.rewrites`).
-/

namespace MoveText

open BinaryPart ByteReader

/-! ### Layouts -/

/-- The parts that the name of a struct type may have in binary form. -/
inductive StructName.Layout : List BinaryPart → StructName → Prop
  | mk {address moduleLength moduleBody typeLength typeBody : Bytes}
      (haddress : address.length = Address.byteCount)
      (hmodule : Uleb.Denotes moduleLength moduleBody.length)
      (hmoduleLe : moduleBody.length ≤ greatestNumber)
      (htype : Uleb.Denotes typeLength typeBody.length)
      (htypeLe : typeBody.length ≤ greatestNumber) :
      Layout [.plain address, .number moduleLength, .body moduleBody, .number typeLength,
          .body typeBody]
        ⟨Address.ofBytes address, Text.decodeText moduleBody, Text.decodeText typeBody⟩

/-- The parts that a struct type may have in binary form, given those of its parameters: its name,
the number of its parameters, and these. -/
inductive StructTag.LayoutWith (layout : List BinaryPart → TypeTag → Prop) :
    List BinaryPart → StructTag → Prop
  | mk {nameParts : List BinaryPart} {name : StructName} {count : Bytes}
      {found : List (List BinaryPart × TypeTag)} (hname : name.Layout nameParts)
      (hcount : Uleb.Denotes count found.length) (hle : found.length ≤ greatestCount)
      (hparams : ∀ p ∈ found, layout p.1 p.2) :
      LayoutWith layout (nameParts ++ .number count :: (found.map Prod.fst).flatten)
        ⟨name, found.map Prod.snd⟩

/-- The parts that a tag may have in binary form. -/
inductive TypeTag.Layout : List BinaryPart → TypeTag → Prop
  | primitive {index : Bytes} {type : Primitive} (hindex : Uleb.Denotes index type.index) :
      Layout [.number index] (.primitive type)
  | vector {index : Bytes} {parts : List BinaryPart} {element : TypeTag}
      (hindex : Uleb.Denotes index vectorIndex) (helement : Layout parts element) :
      Layout (.number index :: parts) (.vector element)
  | struct {index : Bytes} {parts : List BinaryPart} {tag : StructTag}
      (hindex : Uleb.Denotes index structIndex) (htag : StructTag.LayoutWith Layout parts tag) :
      Layout (.number index :: parts) tag.toTypeTag

/-- Induction over layouts, with the hypothesis for all parameters of a struct type at once. -/
@[elab_as_elim]
theorem TypeTag.Layout.induction {motive : List BinaryPart → TypeTag → Prop}
    (primitive : ∀ {index type}, Uleb.Denotes index type.index →
      motive [.number index] (.primitive type))
    (vector : ∀ {index parts element}, Uleb.Denotes index vectorIndex → motive parts element →
      motive (.number index :: parts) (.vector element))
    (struct : ∀ {index parts tag}, Uleb.Denotes index structIndex →
      StructTag.LayoutWith motive parts tag → motive (.number index :: parts) tag.toTypeTag)
    {parts : List BinaryPart} {tag : TypeTag} (h : Layout parts tag) : motive parts tag :=
  @Layout.rec (fun parts tag _ => motive parts tag)
    (fun parts tag _ => StructTag.LayoutWith motive parts tag)
    (fun hindex => primitive hindex) (fun hindex _ helement => vector hindex helement)
    (fun hindex _ htag => struct hindex htag)
    (fun hname hcount hle _ hparams => .mk hname hcount hle hparams) _ _ h

theorem StructTag.LayoutWith.imp {layout layout' : List BinaryPart → TypeTag → Prop}
    (himp : ∀ parts tag, layout parts tag → layout' parts tag) {parts : List BinaryPart}
    {tag : StructTag} (h : LayoutWith layout parts tag) : LayoutWith layout' parts tag := by
  obtain ⟨hname, hcount, hle, hparams⟩ := h
  exact .mk hname hcount hle fun p hp => himp _ _ (hparams p hp)

/-- The parts that a struct type may have in binary form. -/
def StructTag.Layout : List BinaryPart → StructTag → Prop := LayoutWith TypeTag.Layout

/-! ### Reading -/

section Reading

variable {input rest : Bytes}

theorem StructName.read_eq_ok_iff {name : StructName} :
    StructName.read input = .ok (name, rest) ↔
      ∃ parts, name.Layout parts ∧ input = concat parts ++ rest := by
  simp only [StructName.read, bind_eq_ok_iff, Address.read_eq_ok_iff, string_eq_ok_iff,
    pure_eq_ok_iff]
  constructor
  · rintro ⟨_, _, ⟨address, haddress, rfl, rfl⟩, _, _, ⟨moduleLength, moduleBody, hmodule,
      hmoduleLe, rfl, rfl⟩, _, _, ⟨typeLength, typeBody, htype, htypeLe, rfl, rfl⟩, rfl, rfl⟩
    exact ⟨_, .mk haddress hmodule hmoduleLe htype htypeLe, by simp [BinaryPart.bytes]⟩
  · rintro ⟨_, ⟨haddress, hmodule, hmoduleLe, htype, htypeLe⟩, rfl⟩
    exact ⟨_, _, ⟨_, haddress, rfl, by simp [BinaryPart.bytes]⟩, _, _,
      ⟨_, _, hmodule, hmoduleLe, rfl, rfl⟩, _, _, ⟨_, _, htype, htypeLe, rfl, rfl⟩, rfl, rfl⟩

/-- A struct type is read where it is laid out, if its parameters are. -/
private theorem StructTag.readsWithin_readWith {size : Nat} {param : ByteReader TypeTag}
    {layout : List BinaryPart → TypeTag → Prop} (hparam : ReadsWithin size param layout) :
    ReadsWithin size (readWith param) (LayoutWith layout) := by
  intro input tag rest hsize
  simp only [readWith, bind_eq_ok_iff, StructName.read_eq_ok_iff, list_eq_ok_iff, pure_eq_ok_iff]
  constructor
  · rintro ⟨name, _, ⟨nameParts, hname, rfl⟩, params, _,
      ⟨count, n, _, hcount, hle, rfl, htimes⟩, rfl, rfl⟩
    simp only [List.length_append] at hsize
    obtain ⟨found, hfound, rfl, rfl, rfl⟩ := (times_eq_ok_iff hparam (by omega)).mp htimes
    exact ⟨_, .mk hname hcount hle hfound, by simp [BinaryPart.bytes]⟩
  · rintro ⟨_, ⟨hname, hcount, hle, hparams⟩, rfl⟩
    simp only [concat_append, concat_cons, List.append_assoc, List.length_append] at hsize ⊢
    refine ⟨_, _, ⟨_, hname, rfl⟩, _, rest, ⟨_, _, _, hcount, hle, rfl, ?_⟩, rfl, rfl⟩
    refine (times_eq_ok_iff hparam ?_).mpr ⟨_, hparams, rfl, rfl, rfl⟩
    rw [List.length_append]
    omega

namespace TypeTag

private theorem find?_index (type : Primitive) :
    Primitive.all.find? (·.index == type.index) = some type := by
  cases type <;> rfl

/-- A tag has a byte at least. -/
theorem Layout.length_pos {parts : List BinaryPart} {tag : TypeTag} (h : Layout parts tag) :
    0 < (concat parts).length := by
  cases h with
  | primitive hindex => exact length_concat_number_pos hindex _
  | vector hindex => exact length_concat_number_pos hindex _
  | struct hindex => exact length_concat_number_pos hindex _

/-- One level of a tag, given how the levels below are read. -/
def readLevel (below : ByteReader TypeTag) : ByteReader TypeTag := do
  let index ← ByteReader.number
  match Primitive.all.find? (·.index == index) with
  | some type => return primitive type
  | none =>
    if index = vectorIndex then
      let element ← below
      return vector element
    else if index = structIndex then
      let tag ← StructTag.readWith below
      return tag.toTypeTag
    else ByteReader.fail (.unknownVariant index .typeTag)

/-- The bound on the levels counts how often a level is read. -/
theorem readBinaryWithin_succ (levels : Nat) :
    readBinaryWithin (levels + 1) = readLevel (readBinaryWithin levels) := rfl

/-- One level of a tag is read where it is laid out, if the levels below are, which have a byte
less: the number of the variant takes one. -/
private theorem readsWithin_readLevel {size : Nat} {below : ByteReader TypeTag}
    (hbelow : ReadsWithin size below Layout) : ReadsWithin (size + 1) (readLevel below) Layout := by
  intro input tag rest hsize
  rw [readLevel, bind_eq_ok_iff]
  constructor
  · rintro ⟨n, mid, hnumber, h⟩
    obtain ⟨index, hindex, -, rfl⟩ := number_eq_ok_iff.mp hnumber
    -- the number took a byte, so what is left fits the levels below
    have hmid := hindex.length_le hsize
    cases hfind : Primitive.all.find? (·.index == n) with
    | some type =>
      rw [hfind] at h
      obtain ⟨rfl, rfl⟩ := pure_eq_ok_iff.mp h
      have htype := List.find?_some hfind
      obtain rfl := beq_iff_eq.mp htype
      exact ⟨_, .primitive hindex, by simp [BinaryPart.bytes]⟩
    | none =>
      simp only [hfind] at h
      split_ifs at h with hvector hstruct
      · obtain ⟨element, _, helement, hpure⟩ := bind_eq_ok_iff.mp h
        obtain ⟨rfl, rfl⟩ := pure_eq_ok_iff.mp hpure
        obtain ⟨parts, hparts, rfl⟩ := (hbelow _ _ _ hmid).mp helement
        subst hvector
        exact ⟨_, .vector hindex hparts, by simp [BinaryPart.bytes]⟩
      · obtain ⟨tag, _, htag, hpure⟩ := bind_eq_ok_iff.mp h
        obtain ⟨rfl, rfl⟩ := pure_eq_ok_iff.mp hpure
        obtain ⟨parts, hparts, rfl⟩ := (StructTag.readsWithin_readWith hbelow _ _ _ hmid).mp htag
        subst hstruct
        exact ⟨_, .struct hindex hparts, by simp [BinaryPart.bytes]⟩
      · exact (fail_eq_ok_iff.mp h).elim
  · rintro ⟨parts, hlayout, rfl⟩
    cases hlayout with
    | @primitive index type hindex =>
      refine ⟨_, _, number_concat hindex (by cases type <;> decide) _ rest, ?_⟩
      rw [find?_index]
      exact pure_eq_ok_iff.mpr ⟨rfl, rfl⟩
    | @vector index parts element hindex helement =>
      have hmid : (concat parts ++ rest).length ≤ size :=
        hindex.length_le (by simpa [BinaryPart.bytes] using hsize)
      refine ⟨_, _, number_concat hindex (by decide) _ rest,
        bind_eq_ok_iff.mpr ⟨element, rest, ?_, rfl⟩⟩
      exact (hbelow _ _ _ hmid).mpr ⟨parts, helement, rfl⟩
    | @struct index parts tag hindex htag =>
      have hmid : (concat parts ++ rest).length ≤ size :=
        hindex.length_le (by simpa [BinaryPart.bytes] using hsize)
      refine ⟨_, _, number_concat hindex (by decide) _ rest,
        bind_eq_ok_iff.mpr ⟨tag, rest, ?_, rfl⟩⟩
      exact (StructTag.readsWithin_readWith hbelow _ _ _ hmid).mpr ⟨parts, htag, rfl⟩

/-- A tag is read where it is laid out if there are no more bytes than levels to go down. -/
theorem readsWithin_readBinaryWithin (levels : Nat) :
    ReadsWithin levels (readBinaryWithin levels) Layout := by
  induction levels with
  | zero =>
    intro input tag rest hsize
    rw [readBinaryWithin, fail_eq_ok_iff]
    refine iff_of_false id ?_
    rintro ⟨parts, hlayout, rfl⟩
    have hpos := hlayout.length_pos
    rw [List.length_append] at hsize
    omega
  | succ levels ih =>
    rw [readBinaryWithin_succ]
    exact readsWithin_readLevel ih

/-- **A tag is read where it is laid out**, and nowhere else. -/
theorem readBinary_eq_ok_iff {tag : TypeTag} :
    readBinary input = .ok (tag, rest) ↔
      ∃ parts, Layout parts tag ∧ input = concat parts ++ rest :=
  readsWithin_readBinaryWithin input.length input tag rest (Nat.le_refl _)

end TypeTag

/-- A struct type has a byte at least. -/
theorem StructTag.Layout.length_pos {parts : List BinaryPart} {tag : StructTag}
    (h : Layout parts tag) : 0 < (concat parts).length := by
  obtain ⟨⟨haddress, -, -, -, -⟩, -, -, -⟩ := h
  simp [BinaryPart.bytes, haddress, Address.byteCount]

/-- **A struct type is read where it is laid out**, and nowhere else. -/
theorem StructTag.readBinary_eq_ok_iff {tag : StructTag} :
    readBinary input = .ok (tag, rest) ↔
      ∃ parts, Layout parts tag ∧ input = concat parts ++ rest :=
  readsWithin_readWith (TypeTag.readsWithin_readBinaryWithin input.length) input tag rest
    (Nat.le_refl _)

end Reading

/-! ### Writing -/

variable {parts : List BinaryPart}

theorem StructName.Layout.rewrites {name : StructName} (h : name.Layout parts) :
    Rewrites name.encode parts := by
  obtain ⟨haddress, hmodule, hmoduleLe, htype, htypeLe⟩ := h
  rw [StructName.encode, Address.toBytes_ofBytes haddress]
  exact ((Rewrites.plain _).append (.string hmodule)).append (.string htype)

private theorem TypeTag.rewrites_encodeAll {found : List (List BinaryPart × TypeTag)}
    (h : ∀ p ∈ found, Rewrites p.2.encode p.1) :
    Rewrites (encodeAll (found.map Prod.snd)) (found.map Prod.fst).flatten := by
  induction found with
  | nil => exact .nil
  | cons p found ih =>
    obtain ⟨hp, hfound⟩ := List.forall_mem_cons.mp h
    exact hp.append (ih hfound)

/-- What is written for a struct type is canonical if what is written for its parameters is. -/
theorem StructTag.LayoutWith.rewrites {tag : StructTag}
    (h : LayoutWith (fun parts tag => Rewrites tag.encode parts) parts tag) :
    Rewrites tag.encode parts := by
  obtain ⟨hname, hcount, hle, hparams⟩ := h
  rw [StructTag.encode, List.length_map, List.append_assoc]
  exact hname.rewrites.append ((Rewrites.number hcount).append (TypeTag.rewrites_encodeAll hparams))

theorem StructTag.encode_toTypeTag (tag : StructTag) :
    tag.toTypeTag.encode = Uleb.encode TypeTag.structIndex ++ tag.encode := by
  simp [toTypeTag, TypeTag.encode, StructTag.encode]

/-- **What is written for a tag that is laid out** is the layout itself, if that is canonical. -/
theorem TypeTag.Layout.rewrites {tag : TypeTag} (h : Layout parts tag) :
    Rewrites tag.encode parts := by
  refine h.induction (motive := fun parts tag => Rewrites tag.encode parts)
    (fun hindex => .number hindex) (fun hindex ih => (Rewrites.number hindex).append ih)
    fun hindex ih => ?_
  rw [StructTag.encode_toTypeTag]
  exact (Rewrites.number hindex).append ih.rewrites

end MoveText
