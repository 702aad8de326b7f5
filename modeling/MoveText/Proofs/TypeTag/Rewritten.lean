import MoveText.Proofs.TypeTag.RoundTrip
import MoveText.Proofs.TypeTag.TextOfBinary

/-!
# Writing a tag again from the text read of its bytes

The bytes of a tag are read as a text, and this text can be handed over in place of the tag. It is
written with the same bytes exactly if the tag is one that the parser can give: its names are words
and no keywords, and it is not nested too deep (`TypeTag.rewritten_iff`). In all other cases the
text is turned down, or it is taken for a tag with other bytes.
-/

namespace MoveText

open Text

/-! ### Words -/

/-- The words are the plain names among the identifiers. -/
private theorem Identifier.isWord_iff {s : Text} : IsWord s ↔ isValid s ∧ IsPlain s := by
  constructor
  · rintro ⟨hletter, hchars, hkeyword⟩
    refine ⟨?_, hletter, hkeyword⟩
    cases s with
    | nil => cases hletter
    | cons c s =>
      exact isValid_cons_iff.mpr ⟨.inl hletter, fun d hd => hchars d (List.mem_cons_of_mem c hd)⟩
  · rintro ⟨hvalid, hletter, hkeyword⟩
    exact ⟨hletter, isNameChar_of_isValid hvalid, hkeyword⟩

/-- A word does not start with a byte order mark. -/
private theorem Identifier.IsWord.unmarked {s : Text} (h : IsWord s) :
    s.head? ≠ some byteOrderMark := by
  intro hhead
  obtain ⟨s, rfl⟩ := List.head?_eq_some_iff.mp hhead
  exact absurd h.letter (by decide : ¬ byteOrderMark.isAlpha)

/-- Both names are words. -/
def StructName.HasWords (name : StructName) : Prop :=
  Identifier.IsWord name.moduleName ∧ Identifier.IsWord name.typeName

namespace TypeTag

/-! ### Tags that are parsed -/

/-- Without options the limit is 13. -/
private theorem parse_none (input : Text) :
    parse none input = parse (some (Options.ofLimit 13)) input := by
  rw [parse_ofLimit (by decide) (by decide)]
  rfl

/-- A text is written as the tag that it is parsed as. -/
theorem serialize_text_eq_ok_iff {text : Text} {bytes : Bytes} :
    (serialize (.text text)).result = .ok bytes ↔
      ∃ tag, (parse none text).result = .ok tag ∧ bytes = tag.encode := by
  rw [serialize]
  split
  · next tag log hparse => simp [hparse, eq_comm]
  · next failure log hparse => simp [hparse]

/-- What is parsed without options has addresses in normal form, words for names, and a depth of
less than 13. -/
theorem image_of_parse_none {input : Text} {tag : TypeTag}
    (h : (parse none input).result = .ok tag) :
    tag.AllNames StructName.HasAddress ∧ tag.AllNames StructName.HasWords ∧ tag.depth < 13 := by
  rw [parse_none] at h
  obtain ⟨hwf, hdepth, hplain⟩ := image_of_parse (by decide) (by decide) h
  refine ⟨hwf.imp fun _ => StructName.WellFormed.hasAddress, ?_, hdepth⟩
  exact (hwf.and hplain).imp fun _ hname =>
    ⟨Identifier.isWord_iff.mpr ⟨hname.1.moduleName, hname.2.moduleName⟩,
      Identifier.isWord_iff.mpr ⟨hname.1.typeName, hname.2.typeName⟩⟩

/-- The text of a tag is parsed as its normal form, if its names are words and it is not nested too
deep. -/
private theorem parse_none_render {tag : TypeTag} (haddress : tag.AllNames StructName.HasAddress)
    (hwords : tag.AllNames StructName.HasWords) (hdepth : tag.depth < 13) :
    (parse none (tag.render .full)).result = .ok tag.normalize := by
  have hwf : tag.normalize.WellFormed :=
    allNames_normalize_iff.mpr <| (haddress.and hwords).imp fun name hname =>
      ⟨hname.1, (Identifier.isWord_iff.mp hname.2.1).1, (Identifier.isWord_iff.mp hname.2.2).1⟩
  have hplain : tag.normalize.AllNames StructName.IsPlain :=
    allNames_normalize_iff.mpr <| hwords.imp fun name hname =>
      ⟨(Identifier.isWord_iff.mp hname.1).2, (Identifier.isWord_iff.mp hname.2).2⟩
  rw [parse_none, ← haddress.render_normalize]
  refine (parse_render_eq_ok_iff (by decide) (by decide) hwf .full).mpr ⟨rfl, ?_, hplain⟩
  rwa [depth_normalize]

/-- **When the text of a tag has the bytes of the tag.** -/
theorem serialize_textOfBinary_iff {tag : TypeTag} (h : tag.IsWritable) :
    (serialize (.text (tag.readBack.render .full))).result = .ok tag.encode ↔
      tag.depth < 13 ∧ tag.AllNames StructName.HasWords := by
  rw [serialize_text_eq_ok_iff]
  constructor
  · rintro ⟨tag', hparse, hbytes⟩
    obtain ⟨haddress, hwords, hdepth⟩ := image_of_parse_none hparse
    -- whatever tag the text is taken for, its bytes tell that it is the same but for addresses
    have hsame := (encode_eq_iff h.allNames haddress).mp hbytes
    rw [← depth_normalize, hsame, depth_normalize]
    refine ⟨hdepth, ?_⟩
    have hnormal : tag'.normalize.AllNames StructName.HasWords :=
      allNames_normalize_iff.mpr (hwords.imp fun _ hname => hname)
    rw [← hsame] at hnormal
    exact (allNames_normalize_iff.mp hnormal).imp fun _ hname => hname
  · rintro ⟨hdepth, hwords⟩
    have hfits : tag.FitsBinary := fitsBinary_iff.mpr ⟨h, hwords.imp fun _ hname =>
      ⟨hname.1.unmarked, hname.2.unmarked⟩⟩
    rw [hfits.readBack_eq, h.allNames.render_normalize]
    exact ⟨_, parse_none_render h.allNames hwords hdepth, h.allNames.encode_normalize.symm⟩

/-! ### Values -/

/-- **Which tags can be written again.** If a value is written as a tag, and its lengths can be,
then a text is read of the bytes; and it is written with the same bytes exactly if the depth of the
value is 12 at most and the names of all struct types in it are words. So it is for whatever is
parsed under the limit that holds unless another is given. -/
theorem rewritten_iff :
    (∀ v bytes, v.isObject → (∀ s, v.TagHolds s → s.IsSized) →
      (serialize v).result = .ok bytes → ∃ text, textOfBinary bytes = .ok text ∧
        ((serialize (.text text)).result = .ok bytes ↔
          (∃ depth, v.tagDepth? = some depth ∧ depth ≤ 12) ∧
          ∀ s, v.TagHolds s → s.HasNames Identifier.IsWord Identifier.IsWord)) ∧
    ∀ options input tag, Options.resolve options = .ok .default →
      (parse options input).result = .ok tag →
      (∀ s, (tag.toValue .plain).TagHolds s → s.IsSized) →
      ∃ bytes text, (serialize (tag.toValue .plain)).result = .ok bytes ∧
        textOfBinary bytes = .ok text ∧ (serialize (.text text)).result = .ok bytes := by
  constructor
  · intro v bytes hobject hsized hwritten
    rw [serialize_of_isObject hobject] at hwritten
    obtain ⟨tag, htag, rfl⟩ := Except.map_eq_ok_iff.mp hwritten
    have hwritable := isWritable_of_ofValue htag hsized
    refine ⟨_, textOfBinary_encode hwritable, ?_⟩
    have hdepth : (∃ depth, v.tagDepth? = some depth ∧ depth ≤ 12) ↔ tag.depth < 13 := by
      simp [tagDepth?_of_ofValue htag, Nat.lt_succ_iff]
    rw [serialize_textOfBinary_iff hwritable, hdepth,
      forall_tagHolds_iff htag fun _ _ => Value.hasNames_iff, allNames_iff_holds]
    rfl
  · intro options input tag hoptions hparse hsized
    have hdefault : (parse none input).result = .ok tag := by
      rwa [parse, Outcome.underOptions, hoptions] at hparse
    obtain ⟨haddress, hwords, hdepth⟩ := image_of_parse_none hdefault
    have hwritable := isWritable_of_ofValue (ofValue_toValue (.inl rfl) haddress) hsized
    exact ⟨tag.encode, _, serialize_toValue (.inl rfl) haddress, textOfBinary_encode hwritable,
      (serialize_textOfBinary_iff hwritable).mpr ⟨hdepth, hwords⟩⟩

/-- A struct type with a parameter is written with the same bytes again, and so it is when it has
been parsed. With a keyword for its name it is not. -/
theorem rewritten_iff_keyword :
    let tag := struct ⟨"0x2".toList, ['M'], ['T']⟩ [primitive .bool]
    let tag' := struct ⟨"0x2".toList, ['M'], "bool".toList⟩ [primitive .bool]
    let v := tag.toValue .plain
    let w := tag'.toValue .plain
    (v.isObject ∧ (∀ s, v.TagHolds s → s.IsSized) ∧ ∃ bytes text,
      (serialize v).result = .ok bytes ∧ textOfBinary bytes = .ok text ∧
        (serialize (.text text)).result = .ok bytes) ∧
    (w.isObject ∧ (∀ s, w.TagHolds s → s.IsSized) ∧ ∃ bytes text,
      (serialize w).result = .ok bytes ∧ textOfBinary bytes = .ok text ∧
        (serialize (.text text)).result ≠ .ok bytes) ∧
    ∃ parsed, Options.resolve none = .ok .default ∧
      (parse none (tag.render .full)).result = .ok parsed ∧
      (∀ s, (parsed.toValue .plain).TagHolds s → s.IsSized) ∧ ∃ bytes text,
        (serialize (parsed.toValue .plain)).result = .ok bytes ∧
          textOfBinary bytes = .ok text ∧ (serialize (.text text)).result = .ok bytes := by
  intro tag tag' v w
  have hM : Identifier.IsWord ['M'] :=
    ⟨rfl, List.all_eq_true.mp (by decide), Keyword.ofSpelling?_eq_none_iff.mp rfl⟩
  have hT : Identifier.IsWord ['T'] :=
    ⟨rfl, List.all_eq_true.mp (by decide), Keyword.ofSpelling?_eq_none_iff.mp rfl⟩
  have hwords : tag.AllNames StructName.HasWords :=
    .struct ⟨hM, hT⟩ (by simpa using .primitive .bool)
  have hwritable : tag.IsWritable := by decide
  have hwritable' : tag'.IsWritable := by decide
  have hparsed : tag.normalize.IsWritable := by
    simp only [tag, normalize, List.map_cons, List.map_nil]
    decide +kernel
  refine ⟨⟨isObject_toValue _, isSized_of_holds_toValue hwritable, tag.encode, ?_⟩,
    ⟨isObject_toValue _, isSized_of_holds_toValue hwritable', tag'.encode, ?_⟩,
    tag.normalize, rfl, ?_, isSized_of_holds_toValue hparsed, ?_⟩
  · have htag := ofValue_toValue (.inl rfl) hwritable.allNames
    have hwritten := serialize_toValue (.inl rfl) hwritable.allNames
    obtain ⟨text, htext, hagain⟩ := rewritten_iff.1 v _ (isObject_toValue _)
      (isSized_of_holds_toValue hwritable) hwritten
    refine ⟨text, hwritten, htext, hagain.mpr ⟨⟨_, tagDepth?_of_ofValue htag, by decide⟩, ?_⟩⟩
    exact (forall_tagHolds_iff htag fun _ _ => Value.hasNames_iff).mpr
      (allNames_iff_holds.mp hwords)
  · have htag := ofValue_toValue (.inl rfl) hwritable'.allNames
    have hwritten := serialize_toValue (.inl rfl) hwritable'.allNames
    obtain ⟨text, htext, hagain⟩ := rewritten_iff.1 w _ (isObject_toValue _)
      (isSized_of_holds_toValue hwritable') hwritten
    refine ⟨text, hwritten, htext, fun hsame => ?_⟩
    have hnames := (forall_tagHolds_iff htag fun _ _ => Value.hasNames_iff).mp (hagain.mp hsame).2
    exact (hnames _ (.self _ _)).2.noKeyword (.primitive .bool) rfl
  · exact parse_none_render hwritable.allNames hwords (by decide)
  · exact rewritten_iff.2 none _ _ rfl (parse_none_render hwritable.allNames hwords (by decide))
      (isSized_of_holds_toValue hparsed)

end TypeTag

end MoveText
