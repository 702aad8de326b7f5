import MoveText.Proofs.Argument.Layout
import MoveText.Proofs.Argument.Record
import MoveText.Proofs.TypeTag.Input
import MoveText.Proofs.TypeTag.Layout

/-!
# Decoding and encoding again

What is read of any bytes can be written again. The bytes that are written are those that were read
exactly if all of their parts are canonical (`decoding_canonicalises`). So there is one sequence of
bytes for each argument that can be read, and every other sequence that denotes it is turned into
this one.
-/

namespace MoveText

open BinaryPart

/-- Names that are laid out have addresses in normal form. -/
private theorem StructName.Layout.hasAddress {parts : List BinaryPart} {name : StructName}
    (h : name.Layout parts) : name.HasAddress := by
  obtain ⟨haddress, -⟩ := h
  have hnormal := Address.isNormal_ofBytes haddress
  rw [HasAddress, Address.normalize_of_isNormal hnormal]
  exact hnormal

private theorem StructTag.LayoutWith.allNames {parts : List BinaryPart} {tag : StructTag}
    (h : LayoutWith (fun _ tag => tag.AllNames StructName.HasAddress) parts tag) :
    tag.toTypeTag.AllNames StructName.HasAddress := by
  obtain ⟨hname, -, -, hparams⟩ := h
  refine .struct hname.hasAddress fun param hparam => ?_
  obtain ⟨p, hp, rfl⟩ := List.mem_map.mp hparam
  exact hparams p hp

/-- At every level of a tag that is laid out the address is one. -/
private theorem TypeTag.Layout.allNames {parts : List BinaryPart} {tag : TypeTag}
    (h : Layout parts tag) : tag.AllNames StructName.HasAddress :=
  h.induction (motive := fun _ tag => tag.AllNames StructName.HasAddress)
    (fun _ => .primitive _) (fun _ ih => .vector ih) fun _ ih => ih.allNames

/-- **Decoding and encoding again gives the canonical bytes.** An argument or a struct type that is
read has a binary form, and for the parts that were read, of which there is always a list, this is
the same bytes exactly if each of them is canonical: numbers in the fewest groups, truth values zero
or one, and string bodies well-formed UTF-8 without a byte order mark in front. From its binary form
an argument is read again. And the bytes of an address are always written as they were read. -/
theorem decoding_canonicalises (input : Bytes) :
    (∀ a rest, Argument.readBinary input = .ok (a, rest) →
      (∃ parts, Argument.Layout parts a ∧ input = concat parts ++ rest) ∧
      ∃ bytes, Argument.serialize a.toValue = .ok bytes ∧
        (∀ parts, Argument.Layout parts a → input = concat parts ++ rest →
          (bytes = concat parts ↔ ∀ part ∈ parts, part.IsCanonical)) ∧
        ∀ more, Argument.readBinary (bytes ++ more) = .ok (a, more)) ∧
    (∀ tag rest, StructTag.readBinary input = .ok (tag, rest) →
      (∃ parts, StructTag.Layout parts tag ∧ input = concat parts ++ rest) ∧
      ∃ bytes, StructTag.serialize (tag.toValue .labelled) = .ok bytes ∧
        ∀ parts, StructTag.Layout parts tag → input = concat parts ++ rest →
          (bytes = concat parts ↔ ∀ part ∈ parts, part.IsCanonical)) ∧
    ∀ s rest, Address.read input = .ok (s, rest) →
      ∃ body, input = body ++ rest ∧ body.length = 32 ∧ Address.serialize (.text s) = .ok body := by
  refine ⟨fun a rest hread => ?_, fun tag rest hread => ?_, fun s rest hread => ?_⟩
  · obtain ⟨parts, hlayout, hinput⟩ := Argument.readBinary_eq_ok_iff.mp hread
    have hwell := hlayout.wellFormed
    exact ⟨⟨parts, hlayout, hinput⟩, a.encode, Argument.serialize_toValue hwell.inRange,
      fun _ hparts _ => hparts.rewrites.eq_concat_iff, Argument.readBinary_encode_append hwell⟩
  · obtain ⟨parts, hlayout, hinput⟩ := StructTag.readBinary_eq_ok_iff.mp hread
    have hnames := (hlayout.imp fun _ _ => TypeTag.Layout.allNames).allNames
    refine ⟨⟨parts, hlayout, hinput⟩, tag.encode, StructTag.serialize_toValue (.inr rfl) hnames,
      fun _ hparts _ => ?_⟩
    exact (hparts.imp fun _ _ => TypeTag.Layout.rewrites).rewrites.eq_concat_iff
  · obtain ⟨body, hlength, rfl, hinput⟩ := Address.read_eq_ok_iff.mp hread
    have hnormal := Address.isNormal_ofBytes hlength
    have hvalue : Address.ofValue (some (.text (Address.ofBytes body))) =
        .ok (Address.ofBytes body) := by
      rw [Address.ofValue_text_eq_ok_iff, Address.normalize_of_isNormal hnormal]
      exact ⟨hnormal, rfl⟩
    refine ⟨body, hinput, hlength, ?_⟩
    rw [Address.serialize, hvalue]
    exact congrArg Except.ok (Address.toBytes_ofBytes hlength)

/-- The truth value true with a group too many in the number of its variant. -/
theorem decoding_canonicalises_overlong :
    Argument.readBinary [0x85, 0x00, 0x01, 0xff] = .ok (.bool true, [0xff]) ∧
      ∃ bytes, Argument.serialize (Argument.bool true).toValue = .ok bytes ∧
        bytes ≠ [0x85, 0x00, 0x01] := by
  have hread : Argument.readBinary [0x85, 0x00, 0x01, 0xff] = .ok (.bool true, [0xff]) := by rfl
  have hindex : Uleb.Denotes [0x85, 0x00] Argument.boolIndex := rfl
  obtain ⟨-, bytes, hbytes, hiff, -⟩ := (decoding_canonicalises _).1 _ _ hread
  refine ⟨hread, bytes, hbytes, fun heq => ?_⟩
  have hcanonical := (hiff [.number [0x85, 0x00], .truth 0x01] (.bool hindex) rfl).mp heq
  have hshortest := (Uleb.isShortest_iff hindex).mp (hcanonical _ List.mem_cons_self)
  rw [Uleb.encode_of_lt (by decide)] at hshortest
  exact absurd hshortest (by decide)

end MoveText
