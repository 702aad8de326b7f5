import MoveText.Proofs.Argument.Layout
import MoveText.Proofs.Argument.Literal
import MoveText.Proofs.Argument.Record
import MoveText.Proofs.EntryPoints

/-!
# Arguments survive their encodings

A well-formed argument comes back from its literal and from its bytes, and a list of them from its
literals (`Argument.survives_encodings`). The parser gives nothing else, except that it sets no
bound on the length of byte strings.
-/

namespace MoveText.Argument

/-- What the parser gives is in range, so it can be written in binary form. -/
theorem inRange_of_parse {input : Text} {a : Argument} (h : (parse input).result = .ok a) :
    a.InRange ∧ ∃ bytes, serialize a.toValue = .ok bytes := by
  have hmeets : TokenReader.Meets False InRange read := meets_read
  rcases Outcome.ofReader_of_meets hmeets input with
    ⟨found, hfound, hrange⟩ | ⟨rejection, hrejection, -⟩
  · obtain rfl := Except.ok.inj (h.symm.trans hfound)
    exact ⟨hrange, _, serialize_toValue hrange⟩
  · cases h.symm.trans hrejection

theorem inRange_of_parseList {input : Text} {args : List Argument}
    (h : (parseList input).result = .ok args) :
    ∀ a ∈ args, a.InRange ∧ ∃ bytes, serialize a.toValue = .ok bytes := by
  have hread : TokenReader.Meets False InRange read := meets_read
  have hmeets := hread.commaList advances_read .eof true
  rcases Outcome.ofReader_of_meets hmeets input with
    ⟨found, hfound, hrange⟩ | ⟨rejection, hrejection, -⟩
  · obtain rfl := Except.ok.inj (h.symm.trans hfound)
    exact fun a ha => ⟨hrange a ha, _, serialize_toValue (hrange a ha)⟩
  · cases h.symm.trans hrejection

/-- **Arguments survive both of their encodings**, alone and in lists. The literals of well-formed
arguments with separators between them, and perhaps one more behind the last, are parsed as the
arguments; the literal of each is parsed as the argument, and from its bytes it is read back,
whatever follows them. And what is parsed, from whatever input, is in range and has a binary
form. -/
theorem survives_encodings {args : List Argument} (hargs : ∀ a ∈ args, a.WellFormed)
    {separator closing : Text} (hseparator : Text.IsSeparator separator)
    (hclosing : ClosesList args closing) :
    (parseList (Text.join separator (args.map render) ++ closing)).result = .ok args ∧
    (∀ a ∈ args, renderView? a.toValue = some a.render ∧ (parse a.render).result = .ok a ∧
      ∃ bytes, serialize a.toValue = .ok bytes ∧
        ∀ rest, readBinary (bytes ++ rest) = .ok (a, rest)) ∧
    (∀ input a, (parse input).result = .ok a →
      a.InRange ∧ ∃ bytes, serialize a.toValue = .ok bytes) ∧
    ∀ input found, (parseList input).result = .ok found →
      ∀ a ∈ found, a.InRange ∧ ∃ bytes, serialize a.toValue = .ok bytes := by
  refine ⟨parseList_join hseparator (fun a ha => (hargs a ha).inRange) hclosing, fun a ha => ?_,
    fun _ _ => inRange_of_parse, fun _ _ => inRange_of_parseList⟩
  have hrange := (hargs a ha).inRange
  exact ⟨renderView?_toValue hrange, parse_literal hrange, a.encode, serialize_toValue hrange,
    readBinary_encode_append (hargs a ha)⟩

/-- A truth value and a byte, with a comma behind each. -/
theorem survives_encodings_pair :
    (∀ a ∈ [bool true, integer .u8 7], a.WellFormed) ∧ Text.IsSeparator [','] ∧
      (parseList "true,7u8,".toList).result = .ok [bool true, integer .u8 7] := by
  have hargs : ∀ a ∈ [bool true, integer .u8 7], a.WellFormed := by
    simp only [List.forall_mem_cons, List.not_mem_nil, false_imp_iff, implies_true, and_true]
    exact ⟨⟨trivial, by simp⟩, ⟨by decide, by decide⟩, by simp⟩
  have hseparator : Text.IsSeparator [','] := ⟨[], [], rfl, by simp, by simp⟩
  have hclosing : ClosesList [bool true, integer .u8 7] [','] := .inr ⟨by simp, hseparator⟩
  exact ⟨hargs, hseparator, (survives_encodings hargs hseparator hclosing).1⟩

end MoveText.Argument
