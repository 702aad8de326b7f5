import MoveText.Proofs.TypeTag.BinaryIdentity
import MoveText.Proofs.TypeTag.Holds
import MoveText.Proofs.TypeTag.TextIdentity

/-!
# What the text read of bytes tells

The bytes of a tag are read as the text of the tag, but for byte order marks in front of names. The
text tells the bytes as long as no name looks like the marks around it
(`TypeTag.text_tells_bytes`). Names are not checked when a tag is written, and not quoted when it is
rendered, so without this there are tags with different bytes and the same text
(`TypeTag.names_share_text`).
-/

namespace MoveText

open Text

/-- The names of a struct type can be told from the marks around them, and no part of them is lost:
neither starts with a byte order mark, the module neither holds `::` nor ends in `:`, and the type
name holds no bracket and no comma with a blank behind it. -/
def Value.HasToldNames (v : Value) : Prop :=
  v.HasNames (fun s => s.head? ≠ some byteOrderMark ∧ s.IsDelimitedModule)
    fun s => s.head? ≠ some byteOrderMark ∧ TagStyle.full.IsDelimitedName s

namespace TypeTag

/-! ### The text that is read -/

/-- The text that is read of the bytes of a tag. -/
theorem textOfBinary_encode {tag : TypeTag} (h : tag.IsWritable) :
    textOfBinary tag.encode = .ok (tag.readBack.render .full) := by
  rw [textOfBinary, ← List.append_nil tag.encode, readBinary_of_isWritable h]
  rfl

/-- For a tag that fits it is the text of the tag. -/
private theorem textOfBinary_of_fitsBinary {tag : TypeTag} (h : tag.FitsBinary) :
    textOfBinary tag.encode = .ok (tag.render .full) := by
  rw [textOfBinary_encode h.isWritable, h.readBack_eq, h.isWritable.allNames.render_normalize]

/-- A value that is written as a tag has lengths that can be written and names that can be told
exactly if the tag fits and its names are delimited. -/
private theorem hasToldNames_iff {v : Value} {tag : TypeTag} (h : ofValue v = .ok tag) :
    (∀ s, v.TagHolds s → s.IsSized ∧ s.HasToldNames) ↔
      tag.FitsBinary ∧ tag.AllNames (StructName.IsDelimited .full) := by
  rw [forall_tagHolds_iff h fun w s hs =>
      and_congr (StructTag.isWritable_iff hs) (Value.hasNames_iff hs),
    fitsBinary_iff, allNames_iff_holds, allNames_iff_holds]
  constructor
  · intro hall
    refine ⟨⟨fun s hs => (hall s hs).1, fun s hs => ?_⟩, fun s hs => ?_⟩
    · obtain ⟨-, ⟨hmodule, -⟩, htype, -⟩ := hall s hs
      exact ⟨hmodule, htype⟩
    · obtain ⟨-, ⟨-, hmodule⟩, -, htype⟩ := hall s hs
      exact ⟨hmodule, htype⟩
  · rintro ⟨⟨hwritable, hunmarked⟩, hdelimited⟩ s hs
    exact ⟨hwritable s hs, ⟨(hunmarked s hs).moduleName, (hdelimited s hs).moduleName⟩,
      (hunmarked s hs).typeName, (hdelimited s hs).typeName⟩

/-- A struct type at the address `0x1`. -/
def atOne (moduleName typeName : Text) (params : List TypeTag) : TypeTag :=
  struct ⟨"0x1".toList, moduleName, typeName⟩ params

/-- **The text tells the bytes.** If two values are written as tags, and their names can be told
from the marks around them, then texts are read of the bytes of both, and different ones of
different bytes. -/
theorem text_tells_bytes {v w : Value} {bytes bytes' : Bytes} (hv : v.isObject) (hw : w.isObject)
    (hvNames : ∀ s, v.TagHolds s → s.IsSized ∧ s.HasToldNames)
    (hwNames : ∀ s, w.TagHolds s → s.IsSized ∧ s.HasToldNames)
    (hvBytes : (serialize v).result = .ok bytes) (hwBytes : (serialize w).result = .ok bytes') :
    ∃ text text', textOfBinary bytes = .ok text ∧ textOfBinary bytes' = .ok text' ∧
      (bytes ≠ bytes' → text ≠ text') := by
  rw [serialize_of_isObject hv] at hvBytes
  rw [serialize_of_isObject hw] at hwBytes
  obtain ⟨s, hs, rfl⟩ := Except.map_eq_ok_iff.mp hvBytes
  obtain ⟨t, ht, rfl⟩ := Except.map_eq_ok_iff.mp hwBytes
  obtain ⟨hsFits, hsNames⟩ := (hasToldNames_iff hs).mp hvNames
  obtain ⟨htFits, htNames⟩ := (hasToldNames_iff ht).mp hwNames
  have hsAddress := hsFits.isWritable.allNames
  have htAddress := htFits.isWritable.allNames
  refine ⟨_, _, textOfBinary_of_fitsBinary hsFits, textOfBinary_of_fitsBinary htFits,
    fun hne htext => hne ?_⟩
  rw [encode_eq_iff hsAddress htAddress]
  exact (render_eq_iff .full (hsAddress.and hsNames) (htAddress.and htNames)).mp htext

/-- Two struct types with colons and a comma in their names, which differ in their parameters. -/
theorem text_tells_bytes_colons :
    let v := (atOne "a:b".toList "c::d,e".toList []).toValue .plain
    let w := (atOne "a:b".toList "c::d,e".toList [primitive .bool]).toValue .plain
    (v.isObject ∧ ∀ s, v.TagHolds s → s.IsSized ∧ s.HasToldNames) ∧
      (w.isObject ∧ ∀ s, w.TagHolds s → s.IsSized ∧ s.HasToldNames) ∧
      ∃ bytes bytes' text text', (serialize v).result = .ok bytes ∧
        (serialize w).result = .ok bytes' ∧ textOfBinary bytes = .ok text ∧
          textOfBinary bytes' = .ok text' ∧ bytes ≠ bytes' ∧ text ≠ text' := by
  have hname : StructName.IsUnmarked ⟨"0x1".toList, "a:b".toList, "c::d,e".toList⟩ ∧
      StructName.IsDelimited .full ⟨"0x1".toList, "a:b".toList, "c::d,e".toList⟩ :=
    ⟨⟨by decide, by decide⟩, ⟨by decide +kernel, by decide⟩,
      ⟨by decide, by decide, by decide +kernel⟩⟩
  have htold : ∀ params, (atOne "a:b".toList "c::d,e".toList params).IsWritable →
      (∀ param ∈ params, ∀ P, param.AllNames P) →
        ∀ s, ((atOne "a:b".toList "c::d,e".toList params).toValue .plain).TagHolds s →
          s.IsSized ∧ s.HasToldNames := fun params hwritable hparams =>
    (hasToldNames_iff (ofValue_toValue (.inl rfl) hwritable.allNames)).mpr
      ⟨fitsBinary_iff.mpr ⟨hwritable, .struct hname.1 fun param hparam => hparams param hparam _⟩,
        .struct hname.2 fun param hparam => hparams param hparam _⟩
  have hvWritable : (atOne "a:b".toList "c::d,e".toList []).IsWritable := by decide +kernel
  have hwWritable : (atOne "a:b".toList "c::d,e".toList [primitive .bool]).IsWritable := by
    decide +kernel
  have hv := htold [] hvWritable (by simp)
  have hw := htold [primitive .bool] hwWritable (by simpa using fun _ => .primitive .bool)
  have hvBytes := serialize_toValue (.inl rfl) hvWritable.allNames
  have hwBytes := serialize_toValue (.inl rfl) hwWritable.allNames
  obtain ⟨text, text', htext, htext', hdiffer⟩ := text_tells_bytes (isObject_toValue _)
    (isObject_toValue _) hv hw hvBytes hwBytes
  have hne : (atOne "a:b".toList "c::d,e".toList []).encode ≠
      (atOne "a:b".toList "c::d,e".toList [primitive .bool]).encode := by decide +kernel
  exact ⟨⟨isObject_toValue _, hv⟩, ⟨isObject_toValue _, hw⟩, _, _, text, text', hvBytes, hwBytes,
    htext, htext', hne, hdiffer hne⟩

/-! ### Names that look like marks -/

/-- Two values that are written as tags, and whose lengths can be written, have different bytes of
which the same text is read. -/
def ShareText (v w : Value) : Prop :=
  (v.isObject ∧ ∀ s, v.TagHolds s → s.IsSized) ∧ (w.isObject ∧ ∀ s, w.TagHolds s → s.IsSized) ∧
    ∃ bytes bytes' text, (serialize v).result = .ok bytes ∧ (serialize w).result = .ok bytes' ∧
      bytes ≠ bytes' ∧ textOfBinary bytes = .ok text ∧ textOfBinary bytes' = .ok text

private theorem shareText_toValue {s t : TypeTag} (hs : s.IsWritable) (ht : t.IsWritable)
    (hbytes : s.encode ≠ t.encode) (htext : s.readBack.render .full = t.readBack.render .full) :
    ShareText (s.toValue .plain) (t.toValue .plain) := by
  refine ⟨⟨isObject_toValue s, isSized_of_holds_toValue hs⟩,
    ⟨isObject_toValue t, isSized_of_holds_toValue ht⟩, s.encode, t.encode, _,
    serialize_toValue (.inl rfl) hs.allNames, serialize_toValue (.inl rfl) ht.allNames, hbytes,
    textOfBinary_encode hs, ?_⟩
  rw [htext]
  exact textOfBinary_encode ht

/-- **Different tags may share their text**: if a module holds `::` or ends in `:`, if a type name
holds `<`, `>` or `, `, and if a module or a type name starts with a byte order mark. -/
theorem names_share_text :
    ShareText ((atOne "a::b".toList "c".toList []).toValue .plain)
      ((atOne "a".toList "b::c".toList []).toValue .plain) ∧
    ShareText ((atOne "a:".toList "b".toList []).toValue .plain)
      ((atOne "a".toList ":b".toList []).toValue .plain) ∧
    ShareText ((atOne "m".toList "t".toList [atOne "m".toList "a<bool".toList [],
        atOne "m".toList "c".toList [primitive .bool]]).toValue .plain)
      ((atOne "m".toList "t".toList [atOne "m".toList "a".toList [primitive .bool,
        atOne "m".toList "c<bool".toList []]]).toValue .plain) ∧
    ShareText ((atOne "m".toList "t".toList [atOne "m".toList "a".toList
        [atOne "m".toList "c>".toList [], atOne "m".toList "d".toList []]]).toValue .plain)
      ((atOne "m".toList "t".toList [atOne "m".toList "a".toList [atOne "m".toList "c".toList []],
        atOne "m".toList "d>".toList []]).toValue .plain) ∧
    ShareText ((atOne "m".toList "t".toList [atOne "m".toList "a, bool".toList []]).toValue .plain)
      ((atOne "m".toList "t".toList [atOne "m".toList "a".toList [],
        primitive .bool]).toValue .plain) ∧
    ShareText ((atOne "\ufeffa".toList "b".toList []).toValue .plain)
      ((atOne "a".toList "b".toList []).toValue .plain) ∧
    ShareText ((atOne "a".toList "\ufeffb".toList []).toValue .plain)
      ((atOne "a".toList "b".toList []).toValue .plain) := by
  refine ⟨?_, ?_, ?_, ?_, ?_, ?_, ?_⟩
  all_goals
    refine shareText_toValue (by decide +kernel) (by decide +kernel) (by decide +kernel) ?_
    simp only [atOne, readBack, List.map_cons, List.map_nil]
    decide +kernel

end TypeTag

end MoveText
