import Mathlib.Logic.Function.Iterate
import MoveText.Proofs.TypeTag.Layout

/-!
# Levels of tags in bytes

`TypeTag.readLevel` reads one level of a tag, given a reader for the levels below. Reading a whole
tag is what satisfies its own recursion (`readLevel_readBinary`). This comes to an end on all bytes,
however deep they claim to nest and whatever lengths they claim: each level takes a byte, so the
reader that stands below as many levels as there are bytes is never asked (`iterate_readLevel`).
-/

namespace MoveText

/-! ### Readers that agree -/

namespace ByteReader

variable {α β : Type} {size : Nat} {reader reader' : ByteReader α} {bytes : Bytes}

/-- On no more than so many bytes the two readers do the same. -/
def AgreeWithin (size : Nat) (reader reader' : ByteReader α) : Prop :=
  ∀ bytes, bytes.length ≤ size → reader bytes = reader' bytes

/-- Of no more than so many bytes the reader leaves no more than there were. -/
def KeepsWithin (size : Nat) (reader : ByteReader α) : Prop :=
  ∀ bytes a rest, bytes.length ≤ size → reader bytes = .ok (a, rest) → rest.length ≤ bytes.length

private theorem ReadsWithin.keepsWithin {layout : List BinaryPart → α → Prop}
    (h : ReadsWithin size reader layout) : KeepsWithin size reader := by
  intro bytes a rest hsize hread
  obtain ⟨parts, -, rfl⟩ := (h bytes a rest hsize).mp hread
  rw [List.length_append]
  omega

/-- Readers that do the same first, and then do the same with what is left, do the same. -/
private theorem bind_eq_bind {f g : α → ByteReader β} (hreader : reader bytes = reader' bytes)
    (hnext : ∀ a rest, reader' bytes = .ok (a, rest) → f a rest = g a rest) :
    (reader >>= f) bytes = (reader' >>= g) bytes := by
  dsimp only [bind]
  rw [hreader]
  split
  · next a rest hread => exact hnext a rest hread
  · rfl

variable (h : AgreeWithin size reader reader') (hkeeps : KeepsWithin size reader')

include h hkeeps

theorem AgreeWithin.times (count : Nat) :
    AgreeWithin size (times reader count) (times reader' count) := by
  induction count with
  | zero => exact fun _ _ => rfl
  | succ count ih =>
    intro bytes hsize
    refine bind_eq_bind (h bytes hsize) fun first rest hread => ?_
    have hrest := hkeeps bytes first rest hsize hread
    exact bind_eq_bind (ih rest (by omega)) fun _ _ _ => rfl

theorem AgreeWithin.list : AgreeWithin size (list reader) (list reader') := by
  intro bytes hsize
  refine bind_eq_bind rfl fun count rest hread => ?_
  obtain ⟨groups, -, -, rfl⟩ := number_eq_ok_iff.mp hread
  split_ifs
  · rfl
  · rw [List.length_append] at hsize
    exact h.times hkeeps count rest (by omega)

end ByteReader

open ByteReader

private theorem StructTag.agreeWithin_readWith {size : Nat} {param param' : ByteReader TypeTag}
    (h : AgreeWithin size param param') (hkeeps : KeepsWithin size param') :
    AgreeWithin size (readWith param) (readWith param') := by
  intro bytes hsize
  refine bind_eq_bind rfl fun name rest hread => ?_
  obtain ⟨parts, -, rfl⟩ := StructName.read_eq_ok_iff.mp hread
  rw [List.length_append] at hsize
  exact bind_eq_bind (h.list hkeeps rest (by omega)) fun _ _ _ => rfl

/-! ### Levels -/

namespace TypeTag

variable {size levels : Nat} {below below' : ByteReader TypeTag} {bytes : Bytes}

/-- A level takes a byte before the levels below are read. -/
private theorem agreeWithin_readLevel (h : AgreeWithin size below below')
    (hkeeps : KeepsWithin size below') :
    AgreeWithin (size + 1) (readLevel below) (readLevel below') := by
  intro bytes hsize
  refine bind_eq_bind rfl fun index rest hread => ?_
  obtain ⟨groups, hgroups, -, rfl⟩ := number_eq_ok_iff.mp hread
  have hrest := hgroups.length_le hsize
  cases Primitive.all.find? (·.index == index) with
  | some type => rfl
  | none =>
    dsimp only
    split_ifs
    · exact bind_eq_bind (h rest hrest) fun _ _ _ => rfl
    · exact bind_eq_bind (StructTag.agreeWithin_readWith h hkeeps rest hrest) fun _ _ _ => rfl
    · rfl

/-- Where no bytes are left, there is no level to be read. -/
private theorem readLevel_nil (below : ByteReader TypeTag) :
    readLevel below [] = .error .cutNumber := rfl

/-- With one more level than there are bytes, it makes no difference what stands below them. -/
private theorem agreeWithin_iterate (below : ByteReader TypeTag) (levels : Nat) :
    AgreeWithin levels (readLevel^[levels] (readLevel below)) (readBinaryWithin levels) := by
  induction levels with
  | zero =>
    intro bytes hsize
    obtain rfl := List.eq_nil_of_length_eq_zero (Nat.le_zero.mp hsize)
    exact readLevel_nil below
  | succ levels ih =>
    rw [Function.iterate_succ_apply', readBinaryWithin_succ]
    exact agreeWithin_readLevel ih (readsWithin_readBinaryWithin levels).keepsWithin

/-- With more levels than there are bytes, it makes no difference what stands below them. -/
private theorem agreeWithin_iterate_of_lt (below : ByteReader TypeTag) (h : size < levels) :
    AgreeWithin size (readLevel^[levels] below) (readBinaryWithin size) := by
  obtain ⟨more, rfl⟩ := Nat.exists_eq_add_of_lt h
  rw [Nat.add_assoc, Function.iterate_add_apply, Function.iterate_succ_apply']
  exact agreeWithin_iterate _ size

/-- **Reading a tag comes to an end.** With more levels than there are bytes, whatever stands below
them is never asked. -/
theorem iterate_readLevel (below : ByteReader TypeTag) (h : bytes.length < levels) :
    readLevel^[levels] below bytes = readBinary bytes :=
  agreeWithin_iterate_of_lt below h bytes (Nat.le_refl _)

/-- A greater bound on the levels makes no difference. -/
theorem readBinaryWithin_of_le (h : bytes.length ≤ levels) :
    readBinaryWithin levels bytes = readBinary bytes := by
  rw [← iterate_readLevel readBinary (Nat.lt_succ_of_le h)]
  exact (agreeWithin_iterate_of_lt readBinary (Nat.lt_succ_self levels) bytes h).symm

/-- **A tag is read level by level**, and every level is read alike. -/
theorem readLevel_readBinary : readLevel readBinary = readBinary := by
  funext bytes
  have hbelow : AgreeWithin bytes.length readBinary (readBinaryWithin bytes.length) :=
    fun _ hshorter => (readBinaryWithin_of_le hshorter).symm
  calc readLevel readBinary bytes
    _ = readLevel (readBinaryWithin bytes.length) bytes :=
      agreeWithin_readLevel hbelow (readsWithin_readBinaryWithin _).keepsWithin bytes
        (Nat.le_succ _)
    _ = readBinary bytes := readBinaryWithin_of_le (Nat.le_succ _)

end TypeTag

/-- Reading a struct type comes to an end as well. -/
theorem StructTag.readWith_iterate {bytes : Bytes} {levels : Nat} (below : ByteReader TypeTag)
    (h : bytes.length < levels) :
    readWith (TypeTag.readLevel^[levels] below) bytes = readBinary bytes :=
  agreeWithin_readWith (TypeTag.agreeWithin_iterate_of_lt below h)
    (TypeTag.readsWithin_readBinaryWithin _).keepsWithin bytes (Nat.le_refl _)

/-- A struct type is read with its parameters read as tags. -/
theorem StructTag.readWith_readBinary : readWith TypeTag.readBinary = readBinary := by
  funext bytes
  exact agreeWithin_readWith (fun _ hshorter => (TypeTag.readBinaryWithin_of_le hshorter).symm)
    (TypeTag.readsWithin_readBinaryWithin bytes.length).keepsWithin bytes (Nat.le_refl _)

end MoveText
