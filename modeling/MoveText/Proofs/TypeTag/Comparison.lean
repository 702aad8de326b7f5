import Mathlib.Tactic.TFAE
import MoveText.Proofs.TypeTag.BinaryIdentity
import MoveText.Proofs.TypeTag.Input
import MoveText.Proofs.TypeTag.TextIdentity

/-!
# What struct types are compared by

Two struct types are meant to be the same if they are with every address literal replaced by the
address that it denotes (`StructTag.denote`). Their normal forms, the texts that they are shown by
and their bytes each tell exactly this (`StructTag.comparisons_agree`), whatever identifiers the
names are, even such as the lexer does not read as names.
-/

namespace MoveText

/-! ### What tags denote -/

/-- The name with the address that its literal denotes. -/
def StructName.denote (name : StructName) : Except Rejection StructName :=
  (Address.ofLiteral name.address).map fun address => { name with address }

namespace TypeTag

mutual

/-- The tag in which every address literal is replaced by the address that it denotes. -/
def denote : TypeTag → Except Rejection TypeTag
  | primitive type => .ok (primitive type)
  | vector element => (denote element).map vector
  | struct name params => do
    let name ← name.denote
    let params ← denoteAll params
    return struct name params

/-- The tags in which every address literal is replaced. -/
def denoteAll : List TypeTag → Except Rejection (List TypeTag)
  | [] => .ok []
  | tag :: tags => do
    let tag ← denote tag
    let tags ← denoteAll tags
    return tag :: tags

end

end TypeTag

/-- The struct type in which every address literal is replaced by the address that it denotes. -/
def StructTag.denote (tag : StructTag) : Except Rejection StructTag := do
  let name ← tag.name.denote
  let params ← TypeTag.denoteAll tag.params
  return { name, params }

/-- The address is a literal. -/
def StructName.HasLiteral (name : StructName) : Prop :=
  ∃ address, Address.ofLiteral name.address = .ok address

private theorem StructName.HasLiteral.hasAddress {name : StructName} (h : name.HasLiteral) :
    name.HasAddress := by
  obtain ⟨address, haddress⟩ := h
  exact (Address.of_ofLiteral haddress).2

theorem StructName.denote_eq_ok_iff {name name' : StructName} :
    name.denote = .ok name' ↔ name' = name.normalize ∧ name.HasLiteral := by
  rw [denote, Except.map_eq_ok_iff]
  constructor
  · rintro ⟨address, haddress, rfl⟩
    obtain ⟨rfl, -⟩ := Address.of_ofLiteral haddress
    exact ⟨rfl, _, haddress⟩
  · rintro ⟨rfl, address, haddress⟩
    obtain ⟨rfl, -⟩ := Address.of_ofLiteral haddress
    exact ⟨_, haddress, rfl⟩

/-- Parameters denote their normal forms if each of them does. -/
private theorem TypeTag.denoteAll_eq_ok_iff {P : TypeTag → Prop} {params params' : List TypeTag}
    (hparams : ∀ param ∈ params, ∀ param', param.denote = .ok param' ↔
      param' = param.normalize ∧ P param) :
    denoteAll params = .ok params' ↔ params' = params.map normalize ∧ ∀ p ∈ params, P p := by
  induction params generalizing params' with
  | nil => simp [denoteAll, eq_comm]
  | cons param params ih =>
    obtain ⟨hparam, hothers⟩ := List.forall_mem_cons.mp hparams
    simp only [denoteAll, Except.bind_eq_ok_iff, hparam, ih hothers, List.forall_mem_cons,
      List.map_cons]
    constructor
    · rintro ⟨_, ⟨rfl, hP⟩, _, ⟨rfl, hall⟩, ⟨⟩⟩
      exact ⟨rfl, hP, hall⟩
    · rintro ⟨rfl, hP, hall⟩
      exact ⟨_, ⟨rfl, hP⟩, _, ⟨rfl, hall⟩, rfl⟩

/-- **A tag denotes its normal form** if all of its addresses are literals, and nothing else. -/
theorem TypeTag.denote_eq_ok_iff {tag tag' : TypeTag} :
    tag.denote = .ok tag' ↔ tag' = tag.normalize ∧ tag.AllNames StructName.HasLiteral := by
  induction tag using TypeTag.induction generalizing tag' with
  | primitive type => simp [denote, normalize, AllNames.primitive, eq_comm]
  | vector element ih =>
    rw [denote, Except.map_eq_ok_iff, normalize, AllNames.vector_iff]
    simp only [ih]
    constructor
    · rintro ⟨_, ⟨rfl, hnames⟩, rfl⟩
      exact ⟨rfl, hnames⟩
    · rintro ⟨rfl, hnames⟩
      exact ⟨_, ⟨rfl, hnames⟩, rfl⟩
  | struct name params ih =>
    simp only [denote, Except.bind_eq_ok_iff, StructName.denote_eq_ok_iff, normalize,
      AllNames.struct_iff, denoteAll_eq_ok_iff fun param hparam param' => ih param hparam]
    constructor
    · rintro ⟨_, ⟨rfl, hname⟩, _, ⟨rfl, hnames⟩, ⟨⟩⟩
      exact ⟨rfl, hname, hnames⟩
    · rintro ⟨rfl, hname, hnames⟩
      exact ⟨_, ⟨rfl, hname⟩, _, ⟨rfl, hnames⟩, rfl⟩

namespace StructTag

private theorem toTypeTag_injective : Function.Injective toTypeTag := by
  rintro ⟨name, params⟩ ⟨name', params'⟩ h
  obtain ⟨rfl, rfl⟩ := TypeTag.struct.inj h
  rfl

/-- A struct type denotes its normal form if all of its addresses are literals. -/
theorem denote_eq_ok_iff {tag tag' : StructTag} :
    tag.denote = .ok tag' ↔
      tag' = tag.normalize ∧ tag.toTypeTag.AllNames StructName.HasLiteral := by
  have htag : tag.toTypeTag.denote = tag.denote.map toTypeTag := by
    rw [toTypeTag, TypeTag.denote, denote]
    cases tag.name.denote <;> cases TypeTag.denoteAll tag.params <;> rfl
  have hboth : tag.toTypeTag.denote = .ok tag'.toTypeTag ↔
      tag'.toTypeTag = tag.toTypeTag.normalize ∧ tag.toTypeTag.AllNames StructName.HasLiteral :=
    TypeTag.denote_eq_ok_iff
  rw [htag, Except.map_eq_ok_iff, normalize_toTypeTag, toTypeTag_injective.eq_iff] at hboth
  rw [← hboth]
  simp [toTypeTag_injective.eq_iff]

/-! ### Comparing struct types -/

/-- **All comparisons of struct types agree.** For struct types whose addresses are literals and
whose names are identifiers, at every level, it is the same to say that they denote the same struct
type, that they have the same normal form, that they are shown by the same text, and that they have
the same bytes; and such struct types always have bytes. -/
theorem comparisons_agree {s t s' t' : StructTag} (hs : s.denote = .ok s') (ht : t.denote = .ok t')
    (hsNames : s.toTypeTag.AllNames fun name =>
      Identifier.isValid name.moduleName ∧ Identifier.isValid name.typeName)
    (htNames : t.toTypeTag.AllNames fun name =>
      Identifier.isValid name.moduleName ∧ Identifier.isValid name.typeName) :
    ∃ bytes bytes', serialize (s.toValue .plain) = .ok bytes ∧
      serialize (t.toValue .plain) = .ok bytes' ∧
      List.TFAE [s' = t', s.normalForm = t.normalForm, s.render .short = t.render .short,
        bytes = bytes'] := by
  obtain ⟨rfl, hsLiterals⟩ := denote_eq_ok_iff.mp hs
  obtain ⟨rfl, htLiterals⟩ := denote_eq_ok_iff.mp ht
  have hsAddress := hsLiterals.imp fun _ => StructName.HasLiteral.hasAddress
  have htAddress := htLiterals.imp fun _ => StructName.HasLiteral.hasAddress
  have hdenoted : s.normalize = t.normalize ↔ s.toTypeTag.normalize = t.toTypeTag.normalize := by
    rw [normalize_toTypeTag, normalize_toTypeTag, toTypeTag_injective.eq_iff]
  have hrender : ∀ style : TagStyle, style.StartsWithComma →
      (s.normalize = t.normalize ↔ s.render style = t.render style) := by
    intro style hstyle
    have hdelimited : ∀ {tag : TypeTag}, tag.AllNames StructName.HasAddress →
        (tag.AllNames fun name =>
          Identifier.isValid name.moduleName ∧ Identifier.isValid name.typeName) →
        tag.AllNames fun name => name.HasAddress ∧ name.IsDelimited style :=
      fun haddress hnames => (haddress.and hnames).imp fun _ hname =>
        ⟨hname.1, StructName.isDelimited_of_isValid hstyle hname.2.1 hname.2.2⟩
    exact hdenoted.trans (TypeTag.render_eq_iff hstyle (hdelimited hsAddress hsNames)
      (hdelimited htAddress htNames)).symm
  have hencode : s.normalize = t.normalize ↔ s.encode = t.encode := by
    rw [hdenoted, ← TypeTag.encode_eq_iff hsAddress htAddress, encode_toTypeTag, encode_toTypeTag]
    exact List.append_right_inj _
  refine ⟨s.encode, t.encode, serialize_toValue (.inl rfl) hsAddress,
    serialize_toValue (.inl rfl) htAddress, ?_⟩
  tfae_have 1 ↔ 2 := hrender .normal .normal
  tfae_have 1 ↔ 3 := hrender .short .short
  tfae_have 1 ↔ 4 := hencode
  tfae_finish

/-- Struct types that are the same but for the spelling of their addresses, with names that the
lexer does not read as such. -/
theorem comparisons_agree_respelled :
    let s : StructTag := ⟨⟨"0X0002".toList, "_m".toList, "bool".toList⟩,
      [.vector (.struct ⟨"0xAB".toList, "u8".toList, "__".toList⟩ [])]⟩
    let t : StructTag := ⟨⟨"0x2".toList, "_m".toList, "bool".toList⟩,
      [.vector (.struct ⟨"0X00ab".toList, "u8".toList, "__".toList⟩ [])]⟩
    ∃ s' t', s.denote = .ok s' ∧ t.denote = .ok t' ∧
      (s.toTypeTag.AllNames fun name =>
        Identifier.isValid name.moduleName ∧ Identifier.isValid name.typeName) ∧
      (t.toTypeTag.AllNames fun name =>
        Identifier.isValid name.moduleName ∧ Identifier.isValid name.typeName) ∧
      s' = t' ∧ s.normalForm = t.normalForm ∧ s.render .short = t.render .short ∧
      serialize (s.toValue .plain) = serialize (t.toValue .plain) := by
  intro s t
  have hall : ∀ {P : StructName → Prop} {m n : StructName}, P m → P n →
      (TypeTag.struct m [.vector (.struct n [])]).AllNames P := fun hm hn =>
    .struct hm (by simpa using .vector (.struct hn (by simp)))
  have hs : s.denote = .ok s.normalize := denote_eq_ok_iff.mpr ⟨rfl, hall ⟨_, rfl⟩ ⟨_, rfl⟩⟩
  have ht : t.denote = .ok t.normalize := denote_eq_ok_iff.mpr ⟨rfl, hall ⟨_, rfl⟩ ⟨_, rfl⟩⟩
  have htwo : Address.normalize "0X0002".toList = Address.normalize "0x2".toList := by decide
  have hbyte : Address.normalize "0xAB".toList = Address.normalize "0X00ab".toList := by decide
  have hsame : s.normalize = t.normalize := by
    simp only [s, t, normalize, StructName.normalize, TypeTag.normalize, List.map_cons,
      List.map_nil, htwo, hbyte]
  have hsNames : s.toTypeTag.AllNames fun name =>
      Identifier.isValid name.moduleName ∧ Identifier.isValid name.typeName :=
    hall (by decide) (by decide)
  have htNames : t.toTypeTag.AllNames fun name =>
      Identifier.isValid name.moduleName ∧ Identifier.isValid name.typeName :=
    hall (by decide) (by decide)
  obtain ⟨bytes, bytes', hsBytes, htBytes, hagree⟩ := comparisons_agree hs ht hsNames htNames
  have hbytes : bytes = bytes' := (hagree.out 0 3).mp hsame
  refine ⟨_, _, hs, ht, hsNames, htNames, hsame, (hagree.out 0 1).mp hsame,
    (hagree.out 0 2).mp hsame, ?_⟩
  rw [hsBytes, htBytes, hbytes]

end StructTag

end MoveText
