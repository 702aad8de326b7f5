import MoveText.Proofs.Address.Bytes
import MoveText.Proofs.Argument.Reading
import MoveText.Proofs.Binary.Part

/-!
# The binary form of arguments

`Argument.Layout` says which parts the bytes of an argument may have, whether or not they are as
they would be written. Reading finds an argument exactly where it is laid out
(`readBinary_eq_ok_iff`). What is written for an argument that is laid out is the one layout whose
parts are all canonical (`Layout.rewrites`). Of what is written for any argument `Argument.readBack`
is read, which is the argument itself if it is well formed.
-/

namespace MoveText

open BinaryPart ByteReader

variable {input rest : Bytes}

namespace Argument

/-- The parts that an argument may have in binary form. -/
inductive Layout : List BinaryPart → Argument → Prop
  | integer {index body : Bytes} {width : Width} (hindex : Uleb.Denotes index (integerIndex width))
      (hbody : body.length = width.byteCount) :
      Layout [.number index, .plain body] (.integer width (ofLittleEndian body))
  | address {index body : Bytes} (hindex : Uleb.Denotes index addressIndex)
      (hbody : body.length = Address.byteCount) :
      Layout [.number index, .plain body] (.address (Address.ofBytes body))
  | bytes {index count body : Bytes} (hindex : Uleb.Denotes index bytesIndex)
      (hcount : Uleb.Denotes count body.length) (hle : body.length ≤ greatestCount) :
      Layout [.number index, .number count, .plain body] (.bytes body)
  | bool {index : Bytes} {b : UInt8} (hindex : Uleb.Denotes index boolIndex) :
      Layout [.number index, .truth b] (.bool (b == 1))

/-- The argument is in range, and the length of a byte string can be written. -/
structure WellFormed (a : Argument) : Prop where
  inRange : a.InRange
  length_lt : ∀ content, a = .bytes content → content.length < 2 ^ 32

/-- The address is one, in whatever spelling, and the length of a byte string can be written. -/
def IsWritable : Argument → Prop
  | address value => Address.isNormal (Address.normalize value)
  | bytes value => value.length < 2 ^ 32
  | integer .. | bool _ => True

/-- What is read of the bytes of an argument: of an integer as much as its width holds, and an
address in normal form. -/
def readBack : Argument → Argument
  | integer width value =>
    integer width (ofLittleEndian (littleEndian width.byteCount value.toNat))
  | address value => address (Address.normalize value)
  | a => a

variable {a : Argument} {parts : List BinaryPart}

theorem Layout.length_pos (h : Layout parts a) : 0 < (concat parts).length := by
  cases h with
  | integer hindex => exact length_concat_number_pos hindex _
  | address hindex => exact length_concat_number_pos hindex _
  | bytes hindex => exact length_concat_number_pos hindex _
  | bool hindex => exact length_concat_number_pos hindex _

/-! ### Reading -/

theorem readUnsigned_eq_ok_iff {width : Width} :
    readUnsigned width input = .ok (a, rest) ↔ ∃ body : Bytes, body.length = width.byteCount ∧
      integer width (ofLittleEndian body) = a ∧ input = body ++ rest := by
  simp only [readUnsigned, bind_eq_ok_iff, unsigned_eq_ok_iff, pure_eq_ok_iff]
  constructor
  · rintro ⟨_, mid, ⟨body, hlength, rfl, hinput⟩, hvalue, rfl⟩
    exact ⟨body, hlength, hvalue, hinput⟩
  · rintro ⟨body, hlength, hvalue, hinput⟩
    exact ⟨_, rest, ⟨body, hlength, rfl, hinput⟩, hvalue, rfl⟩

theorem readByte_eq_ok_iff {b : UInt8} :
    readByte input = .ok (b, rest) ↔ input = b :: rest := by
  simp only [readByte, bind_eq_ok_iff, unsigned_eq_ok_iff, pure_eq_ok_iff]
  constructor
  · rintro ⟨_, mid, ⟨body, hlength, rfl, rfl⟩, rfl, rfl⟩
    obtain ⟨c, rfl⟩ := List.length_eq_one_iff.mp hlength
    simp [ofLittleEndian]
  · rintro rfl
    exact ⟨_, rest, ⟨[b], rfl, rfl, rfl⟩, by simp [ofLittleEndian], rfl⟩

/-- Bytes may be read one by one. -/
private theorem times_readByte_eq_ok_iff {count : Nat} {items : Bytes} :
    times readByte count input = .ok (items, rest) ↔
      items.length = count ∧ input = items ++ rest := by
  induction count generalizing input items rest with
  | zero =>
    rw [times, pure_eq_ok_iff, List.length_eq_zero_iff]
    constructor
    · rintro ⟨rfl, rfl⟩
      exact ⟨rfl, rfl⟩
    · rintro ⟨rfl, rfl⟩
      exact ⟨rfl, rfl⟩
  | succ count ih =>
    simp only [times, bind_eq_ok_iff, readByte_eq_ok_iff, ih, pure_eq_ok_iff]
    constructor
    · rintro ⟨b, mid, rfl, others, _, ⟨rfl, rfl⟩, rfl, rfl⟩
      exact ⟨rfl, rfl⟩
    · rintro ⟨hlength, rfl⟩
      cases items with
      | nil => cases hlength
      | cons b others => exact ⟨b, _, rfl, others, _, ⟨Nat.succ.inj hlength, rfl⟩, rfl, rfl⟩

private theorem list_readByte_eq_ok_iff {items : Bytes} :
    list readByte input = .ok (items, rest) ↔ ∃ count, Uleb.Denotes count items.length ∧
      items.length ≤ greatestCount ∧ input = count ++ (items ++ rest) := by
  simp only [list_eq_ok_iff, times_readByte_eq_ok_iff]
  constructor
  · rintro ⟨count, _, _, hcount, hle, rfl, rfl, rfl⟩
    exact ⟨count, hcount, hle, rfl⟩
  · rintro ⟨count, hcount, hle, rfl⟩
    exact ⟨count, _, _, hcount, hle, rfl, rfl, rfl⟩

theorem readBool_eq_ok_iff :
    readBool input = .ok (a, rest) ↔ ∃ b : UInt8, bool (b == 1) = a ∧ input = b :: rest := by
  simp only [readBool, bind_eq_ok_iff, readByte_eq_ok_iff, pure_eq_ok_iff]
  constructor
  · rintro ⟨b, mid, hinput, hvalue, rfl⟩
    exact ⟨b, hvalue, hinput⟩
  · rintro ⟨b, hvalue, hinput⟩
    exact ⟨b, rest, hinput, hvalue, rfl⟩

/-- **An argument is read where it is laid out**, and nowhere else. -/
theorem readBinary_eq_ok_iff :
    readBinary input = .ok (a, rest) ↔ ∃ parts, Layout parts a ∧ input = concat parts ++ rest := by
  rw [readBinary, bind_eq_ok_iff]
  constructor
  · rintro ⟨_, mid, hnumber, h⟩
    obtain ⟨index, hindex, -, rfl⟩ := number_eq_ok_iff.mp hnumber
    -- the three widths of integers are alike and come last
    split at h
    case h_4 =>
      obtain ⟨_, _, hread, hpure⟩ := bind_eq_ok_iff.mp h
      obtain ⟨body, hbody, rfl, rfl⟩ := Address.read_eq_ok_iff.mp hread
      obtain ⟨rfl, rfl⟩ := pure_eq_ok_iff.mp hpure
      exact ⟨_, .address hindex hbody, by simp [BinaryPart.bytes]⟩
    case h_5 =>
      obtain ⟨_, _, hread, hpure⟩ := bind_eq_ok_iff.mp h
      obtain ⟨count, hcount, hle, rfl⟩ := list_readByte_eq_ok_iff.mp hread
      obtain ⟨rfl, rfl⟩ := pure_eq_ok_iff.mp hpure
      exact ⟨_, .bytes hindex hcount hle, by simp [BinaryPart.bytes]⟩
    case h_6 =>
      obtain ⟨b, rfl, rfl⟩ := readBool_eq_ok_iff.mp h
      exact ⟨_, .bool hindex, by simp [BinaryPart.bytes]⟩
    case h_7 => exact (fail_eq_ok_iff.mp h).elim
    all_goals
      obtain ⟨body, hbody, rfl, rfl⟩ := readUnsigned_eq_ok_iff.mp h
      exact ⟨_, .integer hindex hbody, by simp [BinaryPart.bytes]⟩
  · rintro ⟨parts, hlayout, rfl⟩
    cases hlayout with
    | @integer index body width hindex hbody =>
      refine ⟨_, _, number_concat hindex (by cases width <;> decide) _ rest, ?_⟩
      cases width <;>
        exact readUnsigned_eq_ok_iff.mpr ⟨body, hbody, rfl, by simp [BinaryPart.bytes]⟩
    | @address index body hindex hbody =>
      refine ⟨_, _, number_concat hindex (by decide) _ rest, bind_eq_ok_iff.mpr ⟨_, rest, ?_, rfl⟩⟩
      exact Address.read_eq_ok_iff.mpr ⟨body, hbody, rfl, by simp [BinaryPart.bytes]⟩
    | @bytes index count body hindex hcount hle =>
      refine ⟨_, _, number_concat hindex (by decide) _ rest, bind_eq_ok_iff.mpr ⟨_, rest, ?_, rfl⟩⟩
      exact list_readByte_eq_ok_iff.mpr ⟨count, hcount, hle, by simp [BinaryPart.bytes]⟩
    | @bool index b hindex =>
      refine ⟨_, _, number_concat hindex (by decide) _ rest, ?_⟩
      exact readBool_eq_ok_iff.mpr ⟨b, rfl, by simp [BinaryPart.bytes]⟩

/-! ### Writing -/

/-- An argument that is laid out is well formed. -/
theorem Layout.wellFormed (h : Layout parts a) : a.WellFormed := by
  cases h with
  | @integer _ body width _ hbody =>
    have hlt := ofLittleEndian_lt body
    rw [hbody] at hlt
    have hle : ofLittleEndian body ≤ width.max := Nat.le_pred_of_lt hlt
    exact ⟨⟨Int.natCast_nonneg _, Int.ofNat_le.mpr hle⟩, by simp⟩
  | address _ hbody => exact ⟨Address.isNormal_ofBytes hbody, by simp⟩
  | @bytes _ _ body _ _ hle =>
    refine ⟨trivial, ?_⟩
    rintro _ ⟨⟩
    rw [greatestCount] at hle
    have hpow : Nat.pow 2 32 = 2 ^ 32 := rfl
    omega
  | bool => exact ⟨trivial, by simp⟩

/-- **What is written for an argument that is laid out** is the layout itself, if that is
canonical. -/
theorem Layout.rewrites (h : Layout parts a) : Rewrites a.encode parts := by
  cases h with
  | @integer index body width hindex hbody =>
    have hwritten : littleEndian width.byteCount (ofLittleEndian body : Int).toNat = body := by
      rw [Int.toNat_natCast, ← hbody, littleEndian_ofLittleEndian]
    rw [encode, hwritten]
    exact (Rewrites.number hindex).append (.plain body)
  | @address index body hindex hbody =>
    rw [encode, Address.toBytes_ofBytes hbody]
    exact (Rewrites.number hindex).append (.plain body)
  | @bytes index count body hindex hcount hle =>
    exact ((Rewrites.number hindex).append (.number hcount)).append (.plain body)
  | @bool index b hindex => exact (Rewrites.number hindex).append (.truth b)

/-- What is written for an argument is a layout of what is read back. -/
private theorem exists_layout_of_isWritable (h : a.IsWritable) :
    ∃ parts, Layout parts a.readBack ∧ concat parts = a.encode := by
  cases a with
  | integer width value =>
    exact ⟨_, .integer (Uleb.denotes_encode _) (length_littleEndian width.byteCount value.toNat),
      by simp [BinaryPart.bytes, encode]⟩
  | bool value =>
    have hlayout := Layout.bool (b := if value then 1 else 0) (Uleb.denotes_encode boolIndex)
    have hvalue : ((if value then 1 else 0 : UInt8) == 1) = value := by cases value <;> rfl
    rw [hvalue] at hlayout
    exact ⟨_, hlayout, by simp [BinaryPart.bytes, encode]⟩
  | address value =>
    have hlayout := Layout.address (Uleb.denotes_encode _) (Address.length_toBytes h)
    rw [Address.ofBytes_toBytes h] at hlayout
    exact ⟨_, hlayout, by simp [BinaryPart.bytes, encode]⟩
  | bytes value =>
    have hle : value.length ≤ greatestCount := Nat.le_pred_of_lt h
    exact ⟨_, .bytes (Uleb.denotes_encode _) (Uleb.denotes_encode _) hle,
      by simp [BinaryPart.bytes, encode]⟩

/-- **The bytes of an argument are read back**, whatever follows them. -/
theorem readBinary_of_isWritable (h : a.IsWritable) (rest : Bytes) :
    readBinary (a.encode ++ rest) = .ok (a.readBack, rest) := by
  obtain ⟨parts, hlayout, hparts⟩ := exists_layout_of_isWritable h
  exact readBinary_eq_ok_iff.mpr ⟨parts, hlayout, by rw [hparts]⟩

/-- A well-formed argument can be written. -/
theorem WellFormed.isWritable (h : a.WellFormed) : a.IsWritable := by
  cases a with
  | address value =>
    have hnormal : Address.isNormal value := h.inRange
    rw [IsWritable, Address.normalize_of_isNormal hnormal]
    exact hnormal
  | bytes value => exact h.length_lt value rfl
  | _ => trivial

/-- A well-formed argument is the one that is read back. -/
theorem WellFormed.readBack_eq (h : a.WellFormed) : a.readBack = a := by
  cases a with
  | integer width value =>
    obtain ⟨hnonneg, hle⟩ := h.inRange
    obtain ⟨n, rfl⟩ := Int.eq_ofNat_of_zero_le hnonneg
    have hlt : n < 256 ^ width.byteCount := by
      have hpos : 0 < Nat.pow 256 width.byteCount := Nat.pow_pos (by decide)
      have hmax : width.max + 1 = 256 ^ width.byteCount := Nat.sub_add_cancel hpos
      omega
    rw [readBack, Int.toNat_natCast, ofLittleEndian_littleEndian hlt]
  | address value => rw [readBack, Address.normalize_of_isNormal h.inRange]
  | _ => rfl

/-- **A well-formed argument is read back from its bytes**, whatever follows. -/
theorem readBinary_encode_append (h : a.WellFormed) (rest : Bytes) :
    readBinary (a.encode ++ rest) = .ok (a, rest) := by
  rw [readBinary_of_isWritable h.isWritable, h.readBack_eq]

end Argument

end MoveText
