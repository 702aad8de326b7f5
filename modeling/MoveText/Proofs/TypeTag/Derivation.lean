import MoveText.Proofs.Address.Literal
import MoveText.Proofs.Token.CommaList
import MoveText.TypeTag.Grammar

/-!
# The grammar of type tags as a relation

`TypeTag.Derives limit depth words tag` says that a list of tokens is one tag that lies at the given
depth, all of whose parts stay above the limit. Nothing in it says how a tag is read. A derivation
is not only for one list: where two derivations start at one place and neither can be prolonged by
the mark `<`, they take the same tokens and give the same tag (`Derives.unique`), whatever the
limits.

The limit is about the depth of the tag alone: `Derives.depth_lt` and `Derives.of_depth_lt` say that
a list derived at one limit is derived at another exactly if the tag is not too deep for it.
-/

namespace MoveText

/-- **Type parameters in brackets**, behind the name of a struct type. Without parameters the
brackets may be absent or empty; else a comma may stand behind the last parameter. -/
inductive Token.Bracketed : List (List Token) → List Token → Prop
  | absent : Bracketed [] []
  | empty : Bracketed [] [.lt, .gt]
  | listed {stretches : List (List Token)} (hne : stretches ≠ []) (extra : Bool) :
      Bracketed stretches (.lt :: (listed stretches extra ++ [.gt]))

/-- **The grammar of type tags.** Each part of a struct type is a stretch of tokens with the tag
that it derives. -/
inductive TypeTag.Derives (limit : Nat) : Nat → List Token → TypeTag → Prop
  | primitive {depth : Nat} (hdepth : depth < limit) (type : Primitive) :
      Derives limit depth [⟨.keyword (.primitive type), none⟩] (.primitive type)
  | vector {depth : Nat} {words : List Token} {element : TypeTag} (hdepth : depth < limit)
      (helement : Derives limit (depth + 1) words element) :
      Derives limit depth (⟨.keyword .vector, none⟩ :: .lt :: (words ++ [.gt])) (.vector element)
  | struct {depth : Nat} {digits moduleName typeName : Text} {parts : List (List Token × TypeTag)}
      {brackets : List Token} (hdepth : depth < limit) (hne : digits ≠ [])
      (hdigits : ∀ c ∈ digits, Text.isHexDigit c) (hlength : digits.length ≤ 64)
      (hbrackets : Token.Bracketed (parts.map Prod.fst) brackets)
      (hparts : ∀ part ∈ parts, Derives limit (depth + 1) part.1 part.2) :
      Derives limit depth
        (⟨.address, some ('0' :: 'x' :: digits)⟩ :: .colonColon :: ⟨.name, some moduleName⟩ ::
          .colonColon :: ⟨.name, some typeName⟩ :: brackets)
        (.struct ⟨Address.padded digits, moduleName, typeName⟩ (parts.map Prod.snd))

/-! ### Only one derivation -/

/-- No bracket opens behind a tag in a list. -/
theorem Token.ne_lt_of_closes {t stop : Token} (hstop : stop ≠ .lt) (h : t = .comma ∨ t = stop) :
    t ≠ .lt := by
  rcases h with rfl | rfl
  · decide
  · exact hstop

/-- Two bracketed lists that start at one place are the same, if their stretches are and what
follows them is no bracket. -/
theorem Token.Bracketed.unique {α : Type} {parts parts' : List (List Token × α)}
    {brackets brackets' tail tail' : List Token} {closing closing' : Token}
    (h : Bracketed (parts.map Prod.fst) brackets) (h' : Bracketed (parts'.map Prod.fst) brackets')
    (hhead : ∀ p ∈ parts, ∃ t words, p.1 = t :: words ∧ t ≠ .gt)
    (hhead' : ∀ p ∈ parts', ∃ t words, p.1 = t :: words ∧ t ≠ .gt)
    (hsame : ∀ p ∈ parts, ∀ p' ∈ parts', ∀ closing closing' tail tail',
      closing = .comma ∨ closing = .gt → closing' = .comma ∨ closing' = .gt →
        p.1 ++ closing :: tail = p'.1 ++ closing' :: tail' → p = p')
    (hclosing : closing ≠ .lt) (hclosing' : closing' ≠ .lt)
    (heq : brackets ++ closing :: tail = brackets' ++ closing' :: tail') :
    parts = parts' ∧ brackets = brackets' := by
  generalize hs : parts.map Prod.fst = stretches at h
  generalize hs' : parts'.map Prod.fst = stretches' at h'
  rcases h with _ | _ | ⟨hne, extra⟩ <;> rcases h' with _ | _ | ⟨hne', extra'⟩
  · exact ⟨(List.map_eq_nil_iff.mp hs).trans (List.map_eq_nil_iff.mp hs').symm, rfl⟩
  · exact absurd (List.cons.inj heq).1 hclosing
  · exact absurd (List.cons.inj heq).1 hclosing
  · exact absurd (List.cons.inj heq).1.symm hclosing'
  · exact ⟨(List.map_eq_nil_iff.mp hs).trans (List.map_eq_nil_iff.mp hs').symm, rfl⟩
  · subst hs'
    have hrest : .gt :: closing :: tail =
        Token.listed (parts'.map Prod.fst) extra' ++ .gt :: closing' :: tail' := by simpa using heq
    exact (head?_listed_ne hne' (by simpa using hhead') _ (congrArg List.head? hrest.symm)).elim
  · exact absurd (List.cons.inj heq).1.symm hclosing'
  · subst hs
    have hrest : Token.listed (parts.map Prod.fst) extra ++ .gt :: closing :: tail =
        .gt :: closing' :: tail' := by simpa using heq
    exact (head?_listed_ne hne (by simpa using hhead) _ (congrArg List.head? hrest)).elim
  · subst hs hs'
    obtain ⟨rfl, rfl⟩ := listed_unique (by decide) (by simpa using hne) (by simpa using hne') hhead
      hhead' hsame (by simpa using heq)
    exact ⟨rfl, rfl⟩

namespace TypeTag

namespace Derives

variable {limit depth : Nat} {words : List Token} {tag : TypeTag}

/-- A tag starts with a token that closes nothing. -/
theorem exists_cons (h : Derives limit depth words tag) {stop : Token}
    (hstop : stop = .gt ∨ stop = .eof) : ∃ t rest, words = t :: rest ∧ t ≠ stop := by
  rcases hstop with rfl | rfl <;> cases h <;> exact ⟨_, _, rfl, by simp [Token.gt, Token.eof]⟩

/-- **The grammar is unambiguous**: two derivations that start at one place, behind which no bracket
opens, are for the same tokens and the same tag. -/
theorem unique {limit' depth' : Nat} {words' tail tail' : List Token} {tag' : TypeTag}
    {closing closing' : Token} (h : Derives limit depth words tag)
    (h' : Derives limit' depth' words' tag') (hclosing : closing ≠ .lt) (hclosing' : closing' ≠ .lt)
    (heq : words ++ closing :: tail = words' ++ closing' :: tail') :
    words = words' ∧ tag = tag' := by
  induction h generalizing depth' words' tag' closing closing' tail tail' with
  | primitive hdepth type =>
    rcases h' with ⟨_, type'⟩ | _ | _
    · obtain ⟨hsame, -⟩ := List.cons.inj heq
      simp_all
    · simp at heq
    · simp at heq
  | @vector depth words element hdepth helement ih =>
    rcases h' with _ | @⟨_, others, element', _, helement'⟩ | _
    · simp at heq
    · have hrest : words ++ .gt :: closing :: tail = others ++ .gt :: closing' :: tail' := by
        simpa using heq
      obtain ⟨rfl, rfl⟩ := ih helement' (by decide) (by decide) hrest
      exact ⟨rfl, rfl⟩
    · simp at heq
  | @struct depth digits moduleName typeName parts brackets hdepth _ _ _ hbrackets hparts ih =>
    rcases h' with _ | _ | @⟨_, digits', moduleName', typeName', parts', brackets', _, _, _, _,
      hbrackets', hparts'⟩
    · simp at heq
    · simp at heq
    · obtain ⟨hnames, hrest⟩ : (digits = digits' ∧ moduleName = moduleName' ∧
          typeName = typeName') ∧ brackets ++ closing :: tail = brackets' ++ closing' :: tail' := by
        simpa [and_assoc] using heq
      -- the parts start at one place too, and what follows each of them opens no bracket
      obtain ⟨rfl, rfl⟩ := hbrackets.unique hbrackets'
        (fun p hp => (hparts p hp).exists_cons (.inl rfl))
        (fun p hp => (hparts' p hp).exists_cons (.inl rfl))
        (fun p hp p' hp' t t' s s' ht ht' hst =>
          have hpair := ih p hp (hparts' p' hp') (Token.ne_lt_of_closes (by decide) ht)
            (Token.ne_lt_of_closes (by decide) ht') hst
          Prod.ext hpair.1 hpair.2)
        hclosing hclosing' hrest
      obtain ⟨rfl, rfl, rfl⟩ := hnames
      exact ⟨rfl, rfl⟩

/-- A list of tokens derives at most one tag. -/
theorem tag_unique {limit' depth' : Nat} {tag' : TypeTag} (h : Derives limit depth words tag)
    (h' : Derives limit' depth' words tag') : tag = tag' :=
  have hend : words ++ [.eof] = words ++ [.eof] := rfl
  (h.unique h' (by decide) (by decide) hend).2

end Derives

/-! ### The limit is about the depth -/

/-- A struct type lies above the limit if it does without its parameters, and they do one deeper. -/
theorem add_depth_struct_lt_iff {depth limit : Nat} {name : StructName} {params : List TypeTag} :
    depth + (struct name params).depth < limit ↔
      depth < limit ∧ ∀ param ∈ params, depth + 1 + param.depth < limit := by
  rw [TypeTag.depth]
  induction params with
  | nil => simp [depthBelow]
  | cons param params ih =>
    have hmax : depth + max (param.depth + 1) (depthBelow params) < limit ↔
        depth + 1 + param.depth < limit ∧ depth + depthBelow params < limit := by omega
    rw [depthBelow, List.forall_mem_cons, hmax, ih, and_left_comm]

namespace Derives

variable {limit depth : Nat} {words : List Token} {tag : TypeTag}

/-- All parts of a tag that is derived lie above the limit. -/
theorem depth_lt (h : Derives limit depth words tag) : depth + tag.depth < limit := by
  induction h with
  | primitive hdepth => exact hdepth
  | vector _ _ ih =>
    rw [TypeTag.depth]
    omega
  | struct hdepth _ _ _ _ _ ih =>
    refine add_depth_struct_lt_iff.mpr ⟨hdepth, fun param hparam => ?_⟩
    obtain ⟨part, hpart, rfl⟩ := List.mem_map.mp hparam
    exact ih part hpart

/-- What is derived at one limit is derived at any other for which the tag is not too deep. -/
theorem of_depth_lt {limit' depth' : Nat} (h : Derives limit depth words tag)
    (hdepth : depth' + tag.depth < limit') : Derives limit' depth' words tag := by
  induction h generalizing depth' with
  | primitive _ type => exact .primitive hdepth type
  | vector _ _ ih =>
    rw [TypeTag.depth] at hdepth
    exact .vector (by omega) (ih (by omega))
  | struct _ hne hdigits hlength hbrackets _ ih =>
    obtain ⟨hself, hparams⟩ := add_depth_struct_lt_iff.mp hdepth
    refine .struct hself hne hdigits hlength hbrackets fun part hpart => ih part hpart ?_
    exact hparams part.2 (List.mem_map_of_mem hpart)

end Derives

end TypeTag

end MoveText
