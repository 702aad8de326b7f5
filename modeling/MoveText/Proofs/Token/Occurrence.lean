import MoveText.Identifier
import MoveText.Proofs.Token.Cut

/-!
# The tokens of a text

Tokens made by hand may hold anything, but those that the grammar sees of a text are spelled in it,
or are the end (`Token.Occurs`). So a keyword holds nothing, an address token holds a literal and a
name token an identifier. `Token.UpToEnd` are the tokens that are left of a text at some place: the
end stands last in them, and nowhere else.
-/

namespace MoveText.Token

/-- A token that the grammar may see of some text. -/
def Occurs (t : Token) : Prop := t = .eof ∨ ∃ word, t.Spells word

namespace Occurs

theorem keyword_value {k : Keyword} {value : Option Text}
    (h : Occurs ⟨.keyword k, value⟩) : value = none := by
  rcases h with h | ⟨word, ⟨⟩⟩
  · cases h
  · rfl

/-- An address token holds a literal with the small marker. -/
theorem address_value {value : Option Text} (h : Occurs ⟨.address, value⟩) :
    ∃ digits, value = some ('0' :: 'x' :: digits) ∧ digits ≠ [] ∧
      ∀ c ∈ digits, Text.isHexDigit c := by
  rcases h with h | ⟨word, h⟩
  · cases h
  · rcases h with _ | _ | _ | _ | @⟨_, digits, _, hne, hdigits⟩
    exact ⟨digits, rfl, hne, hdigits⟩

/-- A name token holds an identifier. -/
theorem name_value {value : Option Text} (h : Occurs ⟨.name, value⟩) :
    ∃ s, value = some s ∧ Identifier.isValid s := by
  rcases h with h | ⟨word, h⟩
  · cases h
  · cases h with
    | @name c rest hc hrest hk =>
      refine ⟨c :: rest, rfl, ?_⟩
      simpa [Identifier.isValid, hc] using hrest

end Occurs

/-- The tokens of a text are spelled in it. -/
theorem exists_spells_of_ofText {s : Text} {tokens : List Token} (h : ofText s = .ok tokens)
    {token : Token} (ht : token ∈ tokens) : ∃ word, token.Spells word := by
  obtain ⟨pieces, hcut, rfl⟩ := ofTextFrom_eq_ok_iff.mp h
  obtain ⟨piece, hp, rfl⟩ := List.mem_map.mp ht
  exact ⟨piece.2, hcut.spells_of_mem hp⟩

/-- The end is not spelled. -/
theorem not_spells_eof (word : Text) : ¬ eof.Spells word := by
  rintro ⟨⟩

/-- The tokens that the grammar sees of a text occur. -/
theorem occurs_of_ofText {s : Text} {tokens : List Token} (h : ofText s = .ok tokens) :
    ∀ t ∈ tokens.filter (fun t => !t.isWhitespace), t.Occurs := fun _ ht =>
  .inr (exists_spells_of_ofText h (List.mem_filter.mp ht).1)

theorem occurs_append_eof {words : List Token} (hwords : ∀ t ∈ words, t.Occurs) :
    ∀ t ∈ words ++ [eof], t.Occurs := by
  intro t ht
  rcases List.mem_append.mp ht with ht | ht
  · exact hwords t ht
  · exact .inl (List.mem_singleton.mp ht)

/-! ### What is left of a text -/

/-- **The tokens that are left of a text** at some place: spelled ones, and the end. -/
inductive UpToEnd : List Token → Prop
  | eof : UpToEnd [.eof]
  | cons {token : Token} {word : Text} {tokens : List Token} (hspells : token.Spells word)
      (htokens : UpToEnd tokens) : UpToEnd (token :: tokens)

private theorem upToEnd_append_eof {words : List Token}
    (hwords : ∀ t ∈ words, ∃ word, t.Spells word) : UpToEnd (words ++ [.eof]) := by
  induction words with
  | nil => exact .eof
  | cons t words ih =>
    obtain ⟨⟨word, hword⟩, hothers⟩ := List.forall_mem_cons.mp hwords
    exact .cons hword (ih hothers)

/-- The tokens that the grammar sees of a text end with the end. -/
theorem upToEnd_of_wordsOfText {s : Text} {tokens : List Token} (h : wordsOfText s = .ok tokens) :
    UpToEnd tokens := by
  rw [wordsOfText] at h
  cases hs : ofText s with
  | error rejection => simp [hs] at h
  | ok found =>
    simp only [hs, Except.ok.injEq] at h
    rw [← h]
    exact upToEnd_append_eof fun t ht => exists_spells_of_ofText hs (List.mem_filter.mp ht).1

end MoveText.Token
