import MoveText.Parse
import MoveText.Proofs.Number.Binary64
import MoveText.Proofs.Token.Occurrence
import MoveText.Proofs.Token.Reading

/-!
# Reading whole texts

An entry point resolves its options, cuts the text into tokens and has a reader go through those
that are no white space. `Options.ofLimit` are the options that set a nesting limit, from 1 to 255
(`resolve_ofLimit`). A whole text is read exactly if its tokens can be cut and the reader takes all
of them up to the end (`readText_eq_ok_iff`).
-/

namespace MoveText

namespace Options

/-- The options by which a caller sets the nesting limit. -/
def ofLimit (limit : Nat) : Value := .record [(maxNestingName, .number (.ofInt limit))]

/-- Every limit from 1 to 255 can be set. -/
theorem resolve_ofLimit {limit : Nat} (hleast : 1 ≤ limit) (hgreatest : limit ≤ 255) :
    resolve (some (ofLimit limit)) = .ok ⟨limit⟩ := by
  have hinteger : (Binary64.ofInt limit).toInt? = some (limit : Int) :=
    Binary64.toInt?_ofInt (by omega)
  have hleast' : ¬ (limit : Int) < leastMaxNesting := by
    rw [leastMaxNesting]
    omega
  have hgreatest' : ¬ (greatestMaxNesting : Int) < limit := by
    rw [greatestMaxNesting]
    omega
  have hlimit : limitOf (.number (.ofInt limit)) = .ok limit := by
    simp only [limitOf, integer?, hinteger, if_neg hleast', if_neg hgreatest', Int.toNat_natCast]
  simp [resolve, ofLimit, ofValue, fieldsOf?, hlimit, bind, Except.bind]

private theorem limitOf_bounds {v : Value} {limit : Nat} (h : limitOf v = .ok limit) :
    1 ≤ limit ∧ limit ≤ 255 := by
  rw [limitOf] at h
  split at h
  · cases h
  · next n hn =>
    split_ifs at h with hless hgreater
    rw [leastMaxNesting] at hless
    rw [greatestMaxNesting] at hgreater
    cases h
    omega

/-- Every set of options that is accepted sets a limit from 1 to 255. -/
theorem bounds_of_resolve {options : Option Value} {resolved : Options}
    (h : resolve options = .ok resolved) :
    1 ≤ resolved.maxNesting ∧ resolved.maxNesting ≤ 255 := by
  cases options with
  | none =>
    cases h
    decide
  | some v =>
    rw [resolve, ofValue] at h
    split at h
    · cases h
    · next fields hfields =>
      cases hlookup : fields.lookup maxNestingName with
      | none =>
        rw [hlookup] at h
        simp only [bind, Except.bind] at h
        split at h
        · cases h
        · cases h
          decide
      | some limit =>
        rw [hlookup] at h
        cases hlimit : limitOf limit with
        | error fault => simp [hlimit, bind, Except.bind] at h
        | ok found =>
          simp only [hlimit, bind, Except.bind] at h
          split at h
          · cases h
          · cases h
            exact limitOf_bounds hlimit

end Options

theorem Outcome.underOptions_ofLimit {α : Type} {limit : Nat} (hleast : 1 ≤ limit)
    (hgreatest : limit ≤ 255) (activity : Options → Outcome Failure α) :
    underOptions (some (Options.ofLimit limit)) activity = activity ⟨limit⟩ := by
  rw [underOptions, Options.resolve_ofLimit hleast hgreatest]

/-- What comes of reading a text is a value exactly if the text is read. -/
theorem Outcome.ofReader_result_eq_ok_iff {α : Type} {reader : TokenReader α} {input : Text}
    {a : α} : (ofReader reader input).result = .ok a ↔ reader.readText input = .ok a := by
  rw [ofReader]
  cases reader.readText input with
  | error rejection => simp
  | ok value => simp

namespace TokenReader

variable {α : Type} {reader : TokenReader α} {input : Text}

private theorem exists_of_fst_eq_ok {tokens : List Token} {a : α} (h : (reader tokens).1 = .ok a) :
    ∃ rest, reader tokens = (.ok a, rest) := ⟨_, Prod.ext h rfl⟩

/-- Where the end stands only once, it stands last. -/
private theorem eq_nil_of_eof_suffix {words rest : List Token} (hwords : ∀ t ∈ words, t ≠ .eof)
    (h : .eof :: rest <:+ words ++ [.eof]) : rest = [] := by
  obtain ⟨front, h⟩ := h
  rcases List.eq_nil_or_concat rest with rfl | ⟨others, last, rfl⟩
  · rfl
  · have hfront : front ++ .eof :: others = words := by
      have hsplit : (front ++ .eof :: others) ++ [last] = words ++ [.eof] := by simpa using h
      exact List.append_inj_left' hsplit rfl
    exact absurd rfl (hwords .eof (by simp [← hfront]))

/-- **When a text is read**: it can be cut into tokens, and of these the reader takes all but the
white space, and nothing of the end. -/
theorem readText_eq_ok_iff (hreader : Advances reader) {a : α} :
    reader.readText input = .ok a ↔
      ∃ tokens, Token.ofText input = .ok tokens ∧
        reader (tokens.filter (fun t => !t.isWhitespace) ++ [.eof]) = (.ok a, [.eof]) := by
  rw [readText, Token.wordsOfText]
  cases htokens : Token.ofText input with
  | error rejection => simp [bind, Except.bind]
  | ok tokens =>
    refine ⟨fun h => ⟨tokens, rfl, ?_⟩, ?_⟩
    · obtain ⟨rest, hwhole⟩ := exists_of_fst_eq_ok h
      obtain ⟨value, mid, hread, hwhole⟩ := bind_eq_ok_iff.mp hwhole
      obtain ⟨_, _, hend, hwhole⟩ := bind_eq_ok_iff.mp hwhole
      obtain rfl := expect_eq_ok_iff.mp hend
      obtain ⟨rfl, rfl⟩ := pure_eq_ok_iff.mp hwhole
      have hwords : ∀ t ∈ tokens.filter (fun t => !t.isWhitespace), t ≠ .eof := by
        rintro token ht rfl
        obtain ⟨word, hword⟩ := Token.exists_spells_of_ofText htokens (List.mem_filter.mp ht).1
        exact Token.not_spells_eof word hword
      -- what is left starts with the end and is an end part of the tokens, so it is the end alone
      have hsuffix := hreader (tokens.filter (fun t => !t.isWhitespace) ++ [.eof])
      rw [hread] at hsuffix
      rw [hread, eq_nil_of_eof_suffix hwords hsuffix]
    · rintro ⟨_, ⟨⟩, hread⟩
      refine congrArg Prod.fst (?_ : _ = (Except.ok a, []))
      refine bind_eq_ok_iff.mpr ⟨a, [.eof], hread, bind_eq_ok_iff.mpr ⟨(), [], ?_⟩⟩
      exact ⟨expect_eq_ok_iff.mpr rfl, pure_eq_ok_iff.mpr ⟨rfl, rfl⟩⟩

end TokenReader

end MoveText
