import MoveText.Proofs.Argument.Layout
import MoveText.Proofs.TypeTag.Input

/-!
# Values as arguments

A value that is written as an argument is written in a way that can be read back, unless it holds
too many bytes (`Argument.isWritable_of_ofValue`).
-/

namespace MoveText

/-- The byte string in a value that stands for an argument has fewer than 2 ^ 32 bytes, whether it
is given as bytes or as items. -/
structure Value.HasSizedBytes (v : Value) : Prop where
  bytes : ∀ raw, v.field? Argument.bytesField = some (.bytes raw) → raw.length < 2 ^ 32
  items : ∀ items, v.field? Argument.bytesField = some (.list items) → items.length < 2 ^ 32

namespace Argument

/-- As many bytes are made of a value as it holds. -/
private theorem bytesOfValue_eq_ok {v : Value} {content : Bytes}
    (h : bytesOfValue v = .ok content) :
    v = .bytes content ∨ ∃ items, v = .list items ∧ items.length = content.length := by
  unfold bytesOfValue at h
  split at h
  · cases h
    exact .inl rfl
  · exact .inr ⟨_, rfl, (Except.mapM_eq_ok_iff.mp h).length_eq⟩
  · cases h

/-- **A value that is written as an argument can be read back**, if its bytes are not too many. -/
theorem isWritable_of_ofValue {v : Value} {a : Argument} (h : ofValue v = .ok a)
    (hsized : v.HasSizedBytes) : a.IsWritable := by
  obtain ⟨_, -, h⟩ := Except.bind_eq_ok_iff.mp h
  -- the integers come first, in three widths
  split at h
  case h_4 =>
    split at h
    · obtain ⟨s, hs, h⟩ := Except.bind_eq_ok_iff.mp h
      cases h
      exact Address.isNormal_of_ofValue hs
    · next b _ hfield =>
      obtain ⟨content, hcontent, h⟩ := Except.bind_eq_ok_iff.mp h
      cases h
      rcases bytesOfValue_eq_ok hcontent with rfl | ⟨items, rfl, hlength⟩
      · exact hsized.bytes _ hfield
      · have hitems := hsized.items _ hfield
        rwa [hlength] at hitems
    · obtain ⟨b, -, h⟩ := Except.bind_eq_ok_iff.mp h
      cases h
      trivial
    · cases h
  all_goals
    obtain ⟨n, -, h⟩ := Except.bind_eq_ok_iff.mp h
    cases h
    trivial

end Argument

end MoveText
