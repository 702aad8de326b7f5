import MoveText.Proofs.Argument.Input
import MoveText.Proofs.TypeTag.Levels
import MoveText.Proofs.TypeTag.Rewritten

/-!
# Where a value ends in the bytes

A reader that reads what is laid out takes the first bytes and finds by itself where they end
(`ByteReader.isSelfDelimiting_of_layout`). So nothing is read of a part of them, and bytes that are
read whole never go on as others that are (`ByteReader.IsSelfDelimiting.noticesCuts`). All that is
written for a value is read whole, which gives `decoding_is_self_delimiting`.
-/

namespace MoveText

open BinaryPart

namespace ByteReader

variable {α : Type} {reader : ByteReader α}

/-- What the reader takes are the first bytes, and one at least, and it takes them in the same way
whatever follows them. So it reads the same of more bytes (`IsSelfDelimiting.append`). -/
def IsSelfDelimiting (reader : ByteReader α) : Prop :=
  ∀ bytes a rest, reader bytes = .ok (a, rest) →
    ∃ taken, taken ≠ [] ∧ bytes = taken ++ rest ∧ ∀ more, reader (taken ++ more) = .ok (a, more)

/-- The bytes in question are read, nothing is read of them when some are cut off at the end, and
none of them go on as others of them. -/
structure NoticesCuts {β : Type} (read : Bytes → Except ReadFault β) (written : Bytes → Prop) :
    Prop where
  reads : ∀ bytes, written bytes → ∃ found, read bytes = .ok found
  fails : ∀ bytes cut, written bytes → cut <+: bytes → cut ≠ bytes →
    ∃ fault, read cut = .error fault
  prefixFree : ∀ bytes bytes', written bytes → written bytes' → bytes <+: bytes' → bytes = bytes'

/-- A reader that finds what is laid out is self-delimiting. -/
theorem isSelfDelimiting_of_layout {layout : List BinaryPart → α → Prop}
    (hread : ∀ {bytes a rest}, reader bytes = .ok (a, rest) ↔
      ∃ parts, layout parts a ∧ bytes = concat parts ++ rest)
    (hpos : ∀ {parts a}, layout parts a → 0 < (concat parts).length) : IsSelfDelimiting reader := by
  intro bytes a rest h
  obtain ⟨parts, hlayout, rfl⟩ := hread.mp h
  exact ⟨concat parts, List.length_pos_iff.mp (hpos hlayout), rfl,
    fun more => hread.mpr ⟨parts, hlayout, rfl⟩⟩

/-- Bytes that are read whatever follows them are read when nothing does. -/
private theorem eq_ok_of_append {bytes : Bytes} {a : α}
    (h : ∀ more, reader (bytes ++ more) = .ok (a, more)) : reader bytes = .ok (a, []) := by
  simpa using h []

namespace IsSelfDelimiting

variable (h : IsSelfDelimiting reader) {bytes rest : Bytes} {a : α}

include h

/-- What follows the bytes is left, behind what was left before. -/
theorem append (hread : reader bytes = .ok (a, rest)) (more : Bytes) :
    reader (bytes ++ more) = .ok (a, rest ++ more) := by
  obtain ⟨taken, -, rfl, htaken⟩ := h bytes a rest hread
  rw [List.append_assoc]
  exact htaken (rest ++ more)

/-- Bytes that are read whole cannot be read when some are missing at the end. -/
theorem exists_error_of_prefix {cut : Bytes} (hwhole : reader bytes = .ok (a, []))
    (hcut : cut <+: bytes) (hne : cut ≠ bytes) : ∃ fault, reader cut = .error fault := by
  obtain ⟨missing, rfl⟩ := hcut
  cases hread : reader cut with
  | error fault => exact ⟨fault, rfl⟩
  | ok found =>
    -- otherwise the missing bytes would be left of the whole
    have hmore := h.append hread missing
    rw [hwhole, Except.ok.injEq, Prod.mk.injEq] at hmore
    have hmissing := (List.append_eq_nil_iff.mp hmore.2.symm).2
    exact absurd (by rw [hmissing, List.append_nil]) hne

/-- **Cuts are noticed** in all bytes that are read whole. -/
theorem noticesCuts {written : Bytes → Prop}
    (hwhole : ∀ bytes, written bytes → ∃ a, reader bytes = .ok (a, [])) :
    NoticesCuts reader written := by
  refine ⟨fun bytes hbytes => ?_, fun bytes cut hbytes hcut hne => ?_,
    fun bytes bytes' hbytes hbytes' hprefix => ?_⟩
  · obtain ⟨a, ha⟩ := hwhole bytes hbytes
    exact ⟨_, ha⟩
  · obtain ⟨a, ha⟩ := hwhole bytes hbytes
    exact h.exists_error_of_prefix ha hcut hne
  · obtain ⟨a, ha⟩ := hwhole bytes hbytes
    obtain ⟨a', ha'⟩ := hwhole bytes' hbytes'
    by_contra hne
    obtain ⟨fault, hfault⟩ := h.exists_error_of_prefix ha' hprefix hne
    cases ha.symm.trans hfault

end IsSelfDelimiting

end ByteReader

open ByteReader

/-! ### The four readers -/

theorem Address.isSelfDelimiting_read : IsSelfDelimiting read := by
  intro bytes s rest h
  obtain ⟨body, hlength, hvalue, rfl⟩ := read_eq_ok_iff.mp h
  have hne : body ≠ [] := by
    rintro rfl
    cases hlength
  exact ⟨body, hne, rfl, fun more => read_eq_ok_iff.mpr ⟨body, hlength, hvalue, rfl⟩⟩

theorem StructTag.isSelfDelimiting_readBinary : IsSelfDelimiting readBinary :=
  isSelfDelimiting_of_layout readBinary_eq_ok_iff Layout.length_pos

theorem TypeTag.isSelfDelimiting_readBinary : IsSelfDelimiting readBinary :=
  isSelfDelimiting_of_layout readBinary_eq_ok_iff Layout.length_pos

theorem Argument.isSelfDelimiting_readBinary : IsSelfDelimiting readBinary :=
  isSelfDelimiting_of_layout readBinary_eq_ok_iff Layout.length_pos

/-! ### What is written is read whole -/

/-- The bytes of a value that is written as an address are read as an address. -/
private theorem Address.exists_read_of_serialize {v : Value} {bytes : Bytes}
    (h : serialize v = .ok bytes) : ∃ s, read bytes = .ok (s, []) := by
  obtain ⟨s, hs, rfl⟩ := Except.map_eq_ok_iff.mp h
  exact ⟨_, read_eq_ok_iff.mpr
    ⟨_, length_toBytes (isNormal_of_ofValue hs), rfl, (List.append_nil _).symm⟩⟩

private theorem StructTag.exists_read_of_serialize {v : Value} {bytes : Bytes}
    (hsized : ∀ s, v.StructHolds s → s.IsSized) (h : serialize v = .ok bytes) :
    ∃ tag, readBinary bytes = .ok (tag, []) := by
  obtain ⟨tag, htag, rfl⟩ := exists_of_serialize h
  exact ⟨_, eq_ok_of_append (readBinary_of_isWritable (isWritable_of_ofValue htag hsized))⟩

/-- The lengths in a value that is to be written as a tag can be written: those of all struct types
in it, and if it is a text, those of all struct types in the tag that it is parsed as. -/
def Value.IsSizedTag : Value → Prop
  | .text input => ∀ tag, (TypeTag.parse none input).result = .ok tag →
      ∀ s, (tag.toValue .plain).TagHolds s → s.IsSized
  | v => ∀ s, v.TagHolds s → s.IsSized

/-- A value is written as a tag that can be read back, if its lengths can be written. -/
private theorem TypeTag.exists_isWritable_of_serialize {v : Value} {bytes : Bytes}
    (hsized : v.IsSizedTag) (h : (serialize v).result = .ok bytes) :
    ∃ tag : TypeTag, tag.IsWritable ∧ bytes = tag.encode := by
  unfold Value.IsSizedTag at hsized
  split at hsized
  · next input =>
    obtain ⟨tag, hparse, rfl⟩ := serialize_text_eq_ok_iff.mp h
    have htag := ofValue_toValue (.inl rfl) (image_of_parse_none hparse).1
    exact ⟨tag, isWritable_of_ofValue htag (hsized tag hparse), rfl⟩
  · next hnot =>
    rw [serialize_of_ne_text hnot] at h
    obtain ⟨tag, htag, rfl⟩ := Except.map_eq_ok_iff.mp h
    exact ⟨tag, isWritable_of_ofValue htag hsized, rfl⟩

private theorem TypeTag.exists_read_of_serialize {v : Value} {bytes : Bytes} (hsized : v.IsSizedTag)
    (h : (serialize v).result = .ok bytes) : ∃ tag, readBinary bytes = .ok (tag, []) := by
  obtain ⟨tag, hwritable, rfl⟩ := exists_isWritable_of_serialize hsized h
  exact ⟨_, eq_ok_of_append (readBinary_of_isWritable hwritable)⟩

private theorem Argument.exists_read_of_serialize {v : Value} {bytes : Bytes}
    (hsized : v.HasSizedBytes) (h : serialize v = .ok bytes) :
    ∃ a, readBinary bytes = .ok (a, []) := by
  obtain ⟨a, ha, rfl⟩ := Except.map_eq_ok_iff.mp h
  exact ⟨_, eq_ok_of_append (readBinary_of_isWritable (isWritable_of_ofValue ha hsized))⟩

/-! ### The text of a tag -/

theorem TypeTag.textOfBinary_eq_ok_iff {bytes : Bytes} {text : Text} :
    textOfBinary bytes = .ok text ↔
      ∃ tag rest, readBinary bytes = .ok (tag, rest) ∧ text = tag.render .full := by
  rw [textOfBinary, Except.map_eq_ok_iff, Prod.exists]

/-- What is noticed of tags is noticed of their texts. -/
theorem TypeTag.noticesCuts_textOfBinary {written : Bytes → Prop}
    (h : NoticesCuts readBinary written) : NoticesCuts textOfBinary written := by
  refine ⟨fun bytes hbytes => ?_, fun bytes cut hbytes hcut hne => ?_, h.prefixFree⟩
  · obtain ⟨⟨tag, rest⟩, hread⟩ := h.reads bytes hbytes
    exact ⟨_, textOfBinary_eq_ok_iff.mpr ⟨tag, rest, hread, rfl⟩⟩
  · obtain ⟨fault, hfault⟩ := h.fails bytes cut hbytes hcut hne
    exact ⟨fault, by rw [textOfBinary, hfault, Except.map]⟩

/-- **Decoding takes a prefix that ends by itself, and notices cuts.** Whatever is read, be it an
address, a struct type, a tag or an argument, takes the first bytes alone, one at least, and is the
same whatever follows them; so is the text that is read of a tag. If a value is written, and its
lengths can be, then its bytes are read, but nothing is read of them when some are cut off at the
end, and they do not go on as those of another value. A tag is read level by level, and this comes
to an end: with more levels than there are bytes, what stands below them is never asked. -/
theorem decoding_is_self_delimiting :
    (IsSelfDelimiting Address.read ∧
      NoticesCuts Address.read fun bytes => ∃ v, Address.serialize v = .ok bytes) ∧
    (IsSelfDelimiting StructTag.readBinary ∧
      NoticesCuts StructTag.readBinary fun bytes =>
        ∃ v, (∀ s, v.StructHolds s → s.IsSized) ∧ StructTag.serialize v = .ok bytes) ∧
    (IsSelfDelimiting TypeTag.readBinary ∧
      (∀ bytes more text, TypeTag.textOfBinary bytes = .ok text →
        TypeTag.textOfBinary (bytes ++ more) = .ok text) ∧
      NoticesCuts TypeTag.textOfBinary fun bytes =>
        ∃ v, v.IsSizedTag ∧ (TypeTag.serialize v).result = .ok bytes) ∧
    (IsSelfDelimiting Argument.readBinary ∧
      NoticesCuts Argument.readBinary fun bytes =>
        ∃ v, v.HasSizedBytes ∧ Argument.serialize v = .ok bytes) ∧
    (TypeTag.readLevel TypeTag.readBinary = TypeTag.readBinary ∧
      StructTag.readWith TypeTag.readBinary = StructTag.readBinary ∧
      ∀ below bytes levels, bytes.length < levels →
        TypeTag.readLevel^[levels] below bytes = TypeTag.readBinary bytes ∧
        StructTag.readWith (TypeTag.readLevel^[levels] below) bytes =
          StructTag.readBinary bytes) := by
  refine ⟨⟨Address.isSelfDelimiting_read, ?_⟩, ⟨StructTag.isSelfDelimiting_readBinary, ?_⟩,
    ⟨TypeTag.isSelfDelimiting_readBinary, fun bytes more text htext => ?_, ?_⟩,
    ⟨Argument.isSelfDelimiting_readBinary, ?_⟩, TypeTag.readLevel_readBinary,
    StructTag.readWith_readBinary, fun below bytes levels hlevels =>
      ⟨TypeTag.iterate_readLevel below hlevels, StructTag.readWith_iterate below hlevels⟩⟩
  · refine Address.isSelfDelimiting_read.noticesCuts ?_
    rintro bytes ⟨v, hwritten⟩
    exact Address.exists_read_of_serialize hwritten
  · refine StructTag.isSelfDelimiting_readBinary.noticesCuts ?_
    rintro bytes ⟨v, hsized, hwritten⟩
    exact StructTag.exists_read_of_serialize hsized hwritten
  · obtain ⟨tag, rest, hread, rfl⟩ := TypeTag.textOfBinary_eq_ok_iff.mp htext
    exact TypeTag.textOfBinary_eq_ok_iff.mpr
      ⟨tag, _, TypeTag.isSelfDelimiting_readBinary.append hread more, rfl⟩
  · refine TypeTag.noticesCuts_textOfBinary (TypeTag.isSelfDelimiting_readBinary.noticesCuts ?_)
    rintro bytes ⟨v, hsized, hwritten⟩
    exact TypeTag.exists_read_of_serialize hsized hwritten
  · refine Argument.isSelfDelimiting_readBinary.noticesCuts ?_
    rintro bytes ⟨v, hsized, hwritten⟩
    exact Argument.exists_read_of_serialize hsized hwritten

/-- A truth value with a byte behind it, a vector without the last byte, and vectors that lack what
they hold. -/
theorem decoding_is_self_delimiting_vector :
    let v := (TypeTag.vector (.primitive .bool)).toValue .plain
    (Argument.readBinary [5, 1, 9] = .ok (.bool true, [9]) ∧
      ∀ more, Argument.readBinary (5 :: 1 :: more) = .ok (.bool true, more)) ∧
    (v.IsSizedTag ∧ (TypeTag.serialize v).result = .ok [6, 0] ∧ [6] <+: [6, 0] ∧
      (∃ fault, TypeTag.textOfBinary [6] = .error fault) ∧
      TypeTag.textOfBinary [6, 0] = .ok "vector<bool>".toList ∧
      TypeTag.textOfBinary ([6, 0] ++ [9]) = .ok "vector<bool>".toList) ∧
    (([6, 6, 6] : Bytes).length < 4 ∧
      TypeTag.readLevel^[4] (fun bytes => .ok (.primitive .bool, bytes)) [6, 6, 6] =
        TypeTag.readBinary [6, 6, 6]) := by
  intro v
  obtain ⟨-, -, ⟨-, hmore, htag⟩, ⟨hargument, -⟩, -, -, hlevels⟩ := decoding_is_self_delimiting
  refine ⟨?_, ?_, by decide, (hlevels _ _ _ (by decide)).1⟩
  · have hread : Argument.readBinary [5, 1, 9] = .ok (.bool true, [9]) := by rfl
    refine ⟨hread, ?_⟩
    obtain ⟨taken, -, htaken, hsame⟩ := hargument _ _ _ hread
    obtain rfl : [5, 1] = taken := List.append_cancel_right htaken
    exact hsame
  · have hwritable : (TypeTag.vector (.primitive .bool)).IsWritable := by decide
    have hencode : (TypeTag.vector (.primitive .bool)).encode = [6, 0] := by decide +kernel
    have hwritten := TypeTag.serialize_toValue (.inl rfl) hwritable.allNames
    rw [hencode] at hwritten
    have hsized := TypeTag.isSized_of_holds_toValue hwritable
    have htext : TypeTag.textOfBinary [6, 0] = .ok "vector<bool>".toList := by
      rw [← hencode, TypeTag.textOfBinary_encode hwritable, TypeTag.readBack, TypeTag.readBack]
      rfl
    exact ⟨hsized, hwritten, ⟨[0], rfl⟩,
      htag.fails [6, 0] [6] ⟨v, hsized, hwritten⟩ ⟨[0], rfl⟩ (by decide), htext, hmore _ _ _ htext⟩

end MoveText
