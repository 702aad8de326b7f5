import MoveText.Argument.View
import MoveText.Binary.Input
import MoveText.Proofs.Argument.Reading
import MoveText.Proofs.Number.Shortest

/-!
# The records of arguments

An argument in range is seen in its record again, whether it is to be written in binary form
(`ofValue_toValue`) or as a literal (`renderView?_toValue`). A byte is held there as a
floating-point number, which it is exactly.
-/

namespace MoveText.Argument

variable {a : Argument}

/-- The number that a byte is held as is taken for the byte. -/
private theorem byteOfValue_ofInt {n : Int} (hn : 0 ≤ n ∧ n ≤ Width.u8.max) :
    byteOfValue (.number (Binary64.ofInt n)) = .ok n := by
  obtain ⟨hnonneg, hle⟩ := hn
  have hmax : Width.u8.max = 255 := rfl
  have hsmall : n.natAbs < 2 ^ 53 := by omega
  have hnegative : ¬ n < 0 := by omega
  have hexceeds : ¬ (Width.u8.max : Int) < n := by omega
  rw [byteOfValue, Value.toNumber]
  simp only [Binary64.isNegative_ofInt hsmall, Binary64.exceeds_ofInt hsmall,
    Binary64.truncate_ofInt hsmall, decide_eq_false hnegative, decide_eq_false hexceeds,
    Bool.or_self, Bool.false_eq_true, if_false]

private theorem integerOfValue_valueOfInteger {width : Width} {n : Int}
    (hn : 0 ≤ n ∧ n ≤ width.max) : integerOfValue width (valueOfInteger width n) = .ok n := by
  have hrange : ¬ (n < 0 ∨ (width.max : Int) < n) := by omega
  cases width with
  | u8 => exact byteOfValue_ofInt hn
  | _ => simp [integerOfValue, valueOfInteger, wideOfValue, Value.toWhole, hrange]

/-- **An argument is seen in its record again.** -/
theorem ofValue_toValue (h : a.InRange) : ofValue a.toValue = .ok a := by
  have hchecked : checkVariants .argument variantNames a.toValue = .ok () := by
    rcases a with ⟨_ | _ | _, _⟩ | _ | _ | _ <;> rfl
  rw [ofValue, hchecked]
  cases a with
  | integer width value =>
    have hread := integerOfValue_valueOfInteger h
    cases width <;> exact congrArg (· >>= fun n => Except.ok (integer _ n)) hread
  | bool value => rfl
  | address value =>
    have hnormal : Address.isNormal value := h
    have hread : Address.ofValue (some (.text value)) = .ok value := by
      rw [Address.ofValue, Address.normalize_of_isNormal hnormal, if_pos hnormal]
    exact congrArg (· >>= fun s => Except.ok (address s)) hread
  | bytes value => rfl

/-- An argument in range can be written in binary form. -/
theorem serialize_toValue (h : a.InRange) : serialize a.toValue = .ok a.encode := by
  rw [serialize, ofValue_toValue h]
  rfl

private theorem toText?_valueOfInteger {width : Width} {n : Int} (hn : 0 ≤ n ∧ n ≤ width.max) :
    (valueOfInteger width n).toText? = some (Text.ofInt n) := by
  cases width with
  | u8 =>
    obtain ⟨hnonneg, hle⟩ := hn
    obtain ⟨m, rfl⟩ := Int.eq_ofNat_of_zero_le hnonneg
    have hmax : Width.u8.max = 255 := rfl
    have hbyte : m < 256 := by omega
    rw [valueOfInteger, Value.toText?, Binary64.toText_ofInt hbyte, Text.ofInt_of_nonneg hnonneg,
      Int.toNat_natCast]
  | _ => simp [valueOfInteger, Value.toText?]

/-- **The record of an argument is written as its literal.** -/
theorem renderView?_toValue (h : a.InRange) : renderView? a.toValue = some a.render := by
  cases a with
  | integer width value =>
    have hshown := toText?_valueOfInteger h
    cases width <;> exact congrArg (Option.map (· ++ Width.label _)) hshown
  | _ => rfl

end MoveText.Argument
