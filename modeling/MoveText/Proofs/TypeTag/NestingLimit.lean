import MoveText.Proofs.TypeTag.Reading

/-!
# What the nesting limit does

Lowering the limit never changes how a text is read, it can only stop the reading. `CutShort`
relates two readers of which one stops with a given rejection wherever it does not go exactly as the
other. Readers put together alike from such readers are related alike, so readers of tags at two
limits are, and so are the outcomes for whole texts, rejected ones included. Which of the two
happens to a text that the higher limit accepts is told by the depth of its tags
(`TypeTag.parse_limit_cuts`).
-/

namespace MoveText

namespace TokenReader

variable {α β : Type} {rejection : Rejection}

/-- `r` is `r'` cut short: on all tokens it stops with the rejection or goes exactly as `r'` does.
-/
def CutShort (rejection : Rejection) (r r' : TokenReader α) : Prop :=
  ∀ tokens, (r tokens).1 = .error rejection ∨ r tokens = r' tokens

namespace CutShort

theorem refl (r : TokenReader α) : CutShort rejection r r := fun _ => .inr rfl

theorem fail (r' : TokenReader α) : CutShort rejection (TokenReader.fail rejection) r' :=
  fun _ => .inl rfl

theorem bind {r r' : TokenReader α} {f f' : α → TokenReader β} (hr : CutShort rejection r r')
    (hf : ∀ a, CutShort rejection (f a) (f' a)) : CutShort rejection (r >>= f) (r' >>= f') := by
  intro tokens
  rcases hr tokens with hstop | hsame
  · have h : r tokens = (.error rejection, (r tokens).2) := Prod.ext hstop rfl
    rw [bind_of_error h]
    exact .inl rfl
  · rcases h : r tokens with ⟨found | a, mid⟩ <;> rw [h] at hsame
    · rw [bind_of_error h, bind_of_error hsame.symm]
      exact .inr rfl
    · rw [bind_of_ok h, bind_of_ok hsame.symm]
      exact hf a mid

/-- Where the same reader goes first, what follows it decides. -/
theorem bind_right (r : TokenReader α) {f f' : α → TokenReader β}
    (hf : ∀ a, CutShort rejection (f a) (f' a)) : CutShort rejection (r >>= f) (r >>= f') :=
  (refl r).bind hf

/-- Two readers that are chosen by the same condition. -/
theorem ite {p : Prop} [Decidable p] {r r' s s' : TokenReader α} (hr : CutShort rejection r r')
    (hs : CutShort rejection s s') :
    CutShort rejection (if p then r else s) (if p then r' else s') := by
  split_ifs
  · exact hr
  · exact hs

variable {item item' : TokenReader α}

theorem itemsWithin (hitem : CutShort rejection item item') (stop : Token) (trailing : Bool)
    (rounds : Nat) : CutShort rejection (TokenReader.itemsWithin item stop trailing rounds)
      (TokenReader.itemsWithin item' stop trailing rounds) := by
  induction rounds with
  | zero => exact refl _
  | succ rounds ih =>
    refine hitem.bind fun first => bind_right _ fun closes => ite (refl _) ?_
    refine bind_right _ fun _ => bind_right _ fun closes => ite (refl _) ?_
    exact ih.bind fun others => refl _

theorem commaList (hitem : CutShort rejection item item') (stop : Token) (trailing : Bool) :
    CutShort rejection (TokenReader.commaList item stop trailing)
      (TokenReader.commaList item' stop trailing) := by
  intro tokens
  rw [TokenReader.commaList, TokenReader.commaList]
  split_ifs
  · exact .inr rfl
  · exact itemsWithin hitem stop trailing _ tokens

/-- A text is read as by the other reader, unless the rejection comes first. -/
theorem readText (hitem : CutShort rejection item item') (input : Text) :
    item.readText input = .error rejection ∨ item.readText input = item'.readText input := by
  rw [TokenReader.readText, TokenReader.readText]
  cases Token.wordsOfText input with
  | error found => exact .inr rfl
  | ok tokens =>
    have hwhole := hitem.bind fun value => refl (do expect .eof; return value)
    rcases hwhole tokens with hstop | hsame
    · exact .inl hstop
    · exact .inr (congrArg Prod.fst hsame)

end CutShort

end TokenReader

/-- The outcomes for a text are the same, unless the rejection comes first. -/
private theorem Outcome.ofReader_cutShort {α : Type} {rejection : Rejection}
    {reader reader' : TokenReader α} (h : TokenReader.CutShort rejection reader reader')
    (input : Text) :
    (ofReader reader input).result = .error (.rejected rejection) ∨
      ofReader reader input = ofReader reader' input := by
  rw [ofReader, ofReader]
  rcases h.readText input with hstop | hsame
  · rw [hstop]
    exact .inl rfl
  · rw [hsame]
    exact .inr rfl

/-- An outcome that is that of another, which is a value, or else a given failure. -/
private theorem Outcome.result_eq_ite {α : Type} {low high : Outcome Failure α} {failure : Failure}
    {a : α} {p : Prop} [Decidable p] (h : low.result = .error failure ∨ low = high)
    (hhigh : high.result = .ok a) (hp : low.result = .ok a ↔ p) :
    low.result = if p then .ok a else .error failure := by
  split_ifs with hvalue
  · exact hp.mpr hvalue
  · rcases h with hstop | rfl
    · exact hstop
    · exact absurd (hp.mp hhigh) hvalue

namespace TypeTag

open TokenReader

private theorem cutShort_readParams {rejection : Rejection} {param param' : TokenReader TypeTag}
    (hparam : CutShort rejection param param') :
    CutShort rejection (readParams param) (readParams param') := by
  refine .bind_right _ fun opens => .ite (.bind_right _ fun _ => ?_) (.refl _)
  exact (hparam.commaList .gt true).bind fun params => .refl _

/-- **One level of the simulation**: with fewer levels above the limit a tag is read alike, or the
limit stops the reader. -/
theorem cutShort_readAbove (limit limit' : Int) (levels more : Nat) :
    CutShort (.tooDeep limit limit) (readAbove limit levels)
      (readAbove limit' (levels + more)) := by
  induction levels with
  | zero =>
    -- no level is left, which is where the lower limit stops
    exact .fail _
  | succ levels ih =>
    rw [Nat.succ_add]
    refine .bind_right _ fun token => ?_
    split
    · exact .refl _
    · exact .bind_right _ fun _ => ih.bind fun element => .refl _
    · refine .bind_right _ fun _ => .bind_right _ fun moduleName => .bind_right _ fun _ => ?_
      exact .bind_right _ fun typeName => (cutShort_readParams ih).bind fun params => .refl _
    · exact .refl _

theorem cutShort_read {limit limit' : Nat} (hlimit : 0 < limit) (hle : limit ≤ limit') :
    CutShort (.tooDeep limit limit) (read 0 limit) (read 0 limit') := by
  rw [read_eq_readAbove hlimit, read_eq_readAbove (Nat.lt_of_lt_of_le hlimit hle)]
  have h := cutShort_readAbove limit limit' limit (limit' - limit)
  rwa [Nat.add_sub_cancel' hle] at h

/-! ### Which tags are too deep -/

variable {limit limit' : Nat} {input : Text}

private theorem DerivesList.depth_lt {words : List Token} {tags : List TypeTag}
    (h : DerivesList limit words tags) : ∀ tag ∈ tags, tag.depth < limit := by
  obtain ⟨parts, extra, -, hparts, -, rfl⟩ := h
  intro tag htag
  obtain ⟨part, hpart, rfl⟩ := List.mem_map.mp htag
  have hdepth := (hparts part hpart).depth_lt
  omega

private theorem DerivesList.of_depth_lt {words : List Token} {tags : List TypeTag}
    (h : DerivesList limit' words tags) (hdepth : ∀ tag ∈ tags, tag.depth < limit) :
    DerivesList limit words tags := by
  obtain ⟨parts, extra, hextra, hparts, hwords, rfl⟩ := h
  refine ⟨parts, extra, hextra, fun part hpart => (hparts part hpart).of_depth_lt ?_, hwords, rfl⟩
  rw [Nat.zero_add]
  exact hdepth part.2 (List.mem_map_of_mem hpart)

/-- A tag that one limit accepts is accepted at another exactly if it is not too deep. -/
theorem parse_eq_ok_iff_depth_lt (hleast : 1 ≤ limit) (hle : limit ≤ limit')
    (hgreatest : limit' ≤ 255) {tag : TypeTag}
    (h : (parse (some (Options.ofLimit limit')) input).result = .ok tag) :
    (parse (some (Options.ofLimit limit)) input).result = .ok tag ↔ tag.depth < limit := by
  obtain ⟨tokens, htokens, hderives⟩ := (parse_eq_ok_iff (by omega) hgreatest).mp h
  rw [parse_eq_ok_iff hleast (by omega)]
  constructor
  · rintro ⟨_, -, hlow⟩
    have hdepth := hlow.depth_lt
    omega
  · exact fun hdepth => ⟨tokens, htokens, hderives.of_depth_lt (by omega)⟩

theorem parseList_eq_ok_iff_depth_lt (hleast : 1 ≤ limit) (hle : limit ≤ limit')
    (hgreatest : limit' ≤ 255) {tags : List TypeTag}
    (h : (parseList (some (Options.ofLimit limit')) input).result = .ok tags) :
    (parseList (some (Options.ofLimit limit)) input).result = .ok tags ↔
      ∀ tag ∈ tags, tag.depth < limit := by
  obtain ⟨tokens, htokens, hderives⟩ := (parseList_eq_ok_iff (by omega) hgreatest).mp h
  rw [parseList_eq_ok_iff hleast (by omega)]
  constructor
  · rintro ⟨_, -, hlow⟩
    exact hlow.depth_lt
  · exact fun hdepth => ⟨tokens, htokens, hderives.of_depth_lt hdepth⟩

/-- **The nesting limit only ever removes tags that are too deep.** At a lower limit a text is
turned down for its depth, or all comes out as at the higher limit, rejections and log included. A
tag that the higher limit accepts is accepted if it does not lie too deep, and turned down for its
depth otherwise; and so is a list of tags, for the depth of any of them. -/
theorem parse_limit_cuts {limit limit' : Nat} (hleast : 1 ≤ limit) (hle : limit ≤ limit')
    (hgreatest : limit' ≤ 255) (input : Text) :
    ((parse (some (Options.ofLimit limit)) input).result =
        .error (.rejected (.tooDeep limit limit)) ∨
      parse (some (Options.ofLimit limit)) input = parse (some (Options.ofLimit limit')) input) ∧
    ((parseList (some (Options.ofLimit limit)) input).result =
        .error (.rejected (.tooDeep limit limit)) ∨
      parseList (some (Options.ofLimit limit)) input =
        parseList (some (Options.ofLimit limit')) input) ∧
    (∀ tag, (parse (some (Options.ofLimit limit')) input).result = .ok tag →
      (parse (some (Options.ofLimit limit)) input).result =
        if tag.depth < limit then .ok tag else .error (.rejected (.tooDeep limit limit))) ∧
    (∀ tags, (parseList (some (Options.ofLimit limit')) input).result = .ok tags →
      (parseList (some (Options.ofLimit limit)) input).result =
        if ∀ tag ∈ tags, tag.depth < limit then .ok tags
        else .error (.rejected (.tooDeep limit limit))) := by
  have hread := cutShort_read hleast hle
  have hparse := Outcome.ofReader_cutShort hread input
  have hparseList := Outcome.ofReader_cutShort (hread.commaList .eof true) input
  rw [← parse_ofLimit hleast (by omega), ← parse_ofLimit (by omega) hgreatest] at hparse
  rw [← parseList_ofLimit hleast (by omega), ← parseList_ofLimit (by omega) hgreatest] at hparseList
  refine ⟨hparse, hparseList, fun tag h => ?_, fun tags h => ?_⟩
  · exact Outcome.result_eq_ite hparse h (parse_eq_ok_iff_depth_lt hleast hle hgreatest h)
  · exact Outcome.result_eq_ite hparseList h (parseList_eq_ok_iff_depth_lt hleast hle hgreatest h)

/-- Lowering the limit from two to one turns a vector down. -/
theorem parse_limit_cuts_vector :
    (1 ≤ 1 ∧ 1 ≤ 2 ∧ 2 ≤ 255) ∧
      (parse (some (Options.ofLimit 2)) "vector<u8>".toList).result =
        .ok (.vector (.primitive .u8)) ∧
      (parse (some (Options.ofLimit 1)) "vector<u8>".toList).result =
        .error (.rejected (.tooDeep 1 1)) := by
  have hhigh : (parse (some (Options.ofLimit 2)) "vector<u8>".toList).result =
      .ok (.vector (.primitive .u8)) :=
    (parse_eq_ok_iff (by decide) (by decide)).mpr
      ⟨_, rfl, .vector (by decide) (.primitive (by decide) .u8)⟩
  have hlow := (parse_limit_cuts (by decide : 1 ≤ 1) (by decide : 1 ≤ 2) (by decide)
    "vector<u8>".toList).2.2.1 _ hhigh
  exact ⟨by decide, hhigh, hlow⟩

end TypeTag

end MoveText
