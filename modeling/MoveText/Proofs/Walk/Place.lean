import MoveText.Proofs.Token.Place
import MoveText.Proofs.Walk

/-!
# The place on a walk

A walk goes over its tokens from the front, and a step that stops leaves off somewhere among them.
Each step takes one stretch, which may be empty, and the next step starts behind it, whether steps
stop or not (`run_keeps_place`). What a step owes to its place is `Step.KeepsPlace`: looking ahead
takes nothing, a rejection that names a token comes right behind that token, one that the tokens ran
out comes at their end, and one of what an argument token stands for comes right behind it.

A tag is turned down as too deep before anything of it is taken. Where that is, `PartStarts` says
without asking how deep a tag may be: it goes down through the brackets of vectors and over the
parameters of struct types that are read on the way.
-/

namespace MoveText

open TokenReader

variable {rejection : Rejection} {tokens rest : List Token} {limit : Int} {levels : Nat}

/-! ### Readers that never find a tag too deep -/

namespace TokenReader

variable {α β : Type} {r : TokenReader α}

/-- The reader stops for other reasons than the depth of a tag. -/
def NeverNests (r : TokenReader α) : Prop :=
  ∀ ⦃tokens rest rejection⦄, r tokens = (.error rejection, rest) → rejection.category ≠ .nesting

private theorem neverNests_next : NeverNests next := by
  intro tokens rest rejection h
  cases tokens with
  | nil =>
    cases h
    decide
  | cons token tail => cases h

private theorem neverNests_nextIs (token : Token) : NeverNests (nextIs token) := by
  intro tokens rest rejection h
  cases h

private theorem neverNests_expect (expected : Token) : NeverNests (expect expected) := by
  intro tokens rest rejection h
  rcases expect_eq_error_iff.mp h with ⟨-, rfl, -⟩ | ⟨actual, -, -, rfl⟩ <;> exact nofun

private theorem neverNests_ofExcept {result : Except Rejection α} (h : FailsOnText result) :
    NeverNests (ofExcept result) := by
  intro tokens rest rejection hstop
  exact (h rejection (ofExcept_eq_error_iff.mp hstop).1).category_ne (by decide)

private theorem neverNests_pure (a : α) : NeverNests (pure a : TokenReader α) := by
  intro tokens rest rejection h
  cases h

private theorem NeverNests.bind {f : α → TokenReader β} (hr : NeverNests r)
    (hf : ∀ a, NeverNests (f a)) : NeverNests (r >>= f) := by
  intro tokens rest rejection h
  rcases bind_eq_error_iff.mp h with hstop | ⟨a, mid, -, hstop⟩
  · exact hr hstop
  · exact hf a hstop

/-- If a tag is too deep, then for the reader before others that never find so. -/
private theorem eq_error_of_bind_neverNests {f : α → TokenReader β} (hf : ∀ a, NeverNests (f a))
    (h : (r >>= f) tokens = (.error rejection, rest)) (hcategory : rejection.category = .nesting) :
    r tokens = (.error rejection, rest) := by
  rcases bind_eq_error_iff.mp h with hstop | ⟨a, mid, -, hstop⟩
  · exact hstop
  · exact absurd hcategory (hf a hstop)

/-- If a tag is too deep, then for a reader behind one that never finds so. -/
private theorem NeverNests.exists_of_bind {f : α → TokenReader β} (hr : NeverNests r)
    (h : (r >>= f) tokens = (.error rejection, rest)) (hcategory : rejection.category = .nesting) :
    ∃ a mid, r tokens = (.ok a, mid) ∧ f a mid = (.error rejection, rest) := by
  rcases bind_eq_error_iff.mp h with hstop | hrest
  · exact absurd hcategory (hr hstop)
  · exact hrest

private theorem neverNests_structPart : NeverNests structPart := by
  intro tokens rest rejection h hcategory
  obtain ⟨token, mid, -, h⟩ := neverNests_next.exists_of_bind h hcategory
  split_ifs at h
  · cases h
  · cases h
    cases hcategory

end TokenReader

/-! ### Tags -/

namespace TypeTag

private theorem stopsInPlace_readParams {param : TokenReader TypeTag} (hparam : StopsInPlace param)
    (hadvances : Advances param) : StopsInPlace (readParams param) := by
  refine (stopsInPlace_nextIs .lt).bind (advances_nextIs .lt) fun opens => ?_
  split_ifs
  · refine (stopsInPlace_expect .lt).bind (advances_expect .lt) fun _ => ?_
    refine (hparam.commaList hadvances .gt true).bind (advances_commaList hadvances .gt true) ?_
    intro params
    exact (stopsInPlace_expect .gt).bind (advances_expect .gt) fun _ => stopsInPlace_pure params
  · exact stopsInPlace_pure []

/-- **The reader of type tags stops in place.** -/
theorem stopsInPlace_readAbove (limit : Int) (levels : Nat) :
    StopsInPlace (readAbove limit levels) := by
  induction levels with
  | zero =>
    intro tokens rest rejection h
    cases h
    trivial
  | succ levels ih =>
    have hbelow := advances_readAbove limit levels
    refine stopsInPlace_next_bind fun token => ?_
    split
    · exact .inl (stopsInPlace_pure _)
    · refine .inl ((stopsInPlace_expect .lt).bind (advances_expect .lt) fun _ => ?_)
      refine ih.bind hbelow fun element => ?_
      exact (stopsInPlace_expect .gt).bind (advances_expect .gt) fun _ => stopsInPlace_pure _
    · refine .inl ((stopsInPlace_expect .colonColon).bind (advances_expect .colonColon) fun _ => ?_)
      refine stopsInPlace_structPart.bind advances_structPart fun moduleName => ?_
      refine (stopsInPlace_expect .colonColon).bind (advances_expect .colonColon) fun _ => ?_
      refine stopsInPlace_structPart.bind advances_structPart fun typeName => ?_
      refine (stopsInPlace_readParams ih hbelow).bind (advances_readParams hbelow) fun params => ?_
      refine (stopsInPlace_ofExcept (.textOf token)).bind (advances_ofExcept _) fun address => ?_
      exact (stopsInPlace_ofExcept (.create _ _ _)).bind (advances_ofExcept _) fun _ =>
        stopsInPlace_pure _
    · exact .inr ⟨_, rfl, fun _ => List.suffix_rfl⟩

/-- **What is too deep lies below the front of a tag**: it is the element of a vector, or a
parameter of a struct type. -/
theorem exists_of_readAbove_nesting
    (h : readAbove limit (levels + 1) tokens = (.error rejection, rest))
    (hcategory : rejection.category = .nesting) :
    (∃ value mid, tokens = ⟨.keyword .vector, value⟩ :: .lt :: mid ∧
      readAbove limit levels mid = (.error rejection, rest)) ∨
    ∃ value moduleName typeName mid, tokens = ⟨.address, value⟩ :: .colonColon ::
        ⟨.name, moduleName⟩ :: .colonColon :: ⟨.name, typeName⟩ :: .lt :: mid ∧
      commaList (readAbove limit levels) .gt true mid = (.error rejection, rest) := by
  have hclose : ∀ {β : Type} (b : β), NeverNests (do expect .gt; return b) := fun b =>
    (neverNests_expect .gt).bind fun _ => neverNests_pure b
  obtain ⟨⟨kind, value⟩, behind, hnext, h⟩ := neverNests_next.exists_of_bind h hcategory
  rw [next_eq_ok_iff.mp hnext]
  dsimp only at h
  split at h
  · cases h
  · obtain ⟨_, mid, hlt, h⟩ := (neverNests_expect .lt).exists_of_bind h hcategory
    refine .inl ⟨value, mid, by rw [expect_eq_ok_iff.mp hlt], ?_⟩
    exact eq_error_of_bind_neverNests (fun _ => hclose _) h hcategory
  · obtain ⟨_, _, hcolons, h⟩ := (neverNests_expect .colonColon).exists_of_bind h hcategory
    obtain ⟨moduleName, _, hmodule, h⟩ := neverNests_structPart.exists_of_bind h hcategory
    obtain ⟨_, _, hcolons', h⟩ := (neverNests_expect .colonColon).exists_of_bind h hcategory
    obtain ⟨typeName, params, htype, h⟩ := neverNests_structPart.exists_of_bind h hcategory
    -- behind the parameters only what the tokens stand for is checked
    have hparams : readParams (readAbove limit levels) params = (.error rejection, rest) := by
      refine eq_error_of_bind_neverNests (fun found => ?_) h hcategory
      refine (neverNests_ofExcept (.textOf _)).bind fun address => ?_
      exact (neverNests_ofExcept (.create _ _ _)).bind fun _ => neverNests_pure _
    obtain ⟨opens, _, hopens, h⟩ := (neverNests_nextIs .lt).exists_of_bind hparams hcategory
    obtain ⟨-, rfl⟩ := nextIs_eq_ok_iff.mp hopens
    split_ifs at h
    · obtain ⟨_, mid, hlt, h⟩ := (neverNests_expect .lt).exists_of_bind h hcategory
      refine .inr ⟨value, moduleName, typeName, mid, ?_, ?_⟩
      · rw [expect_eq_ok_iff.mp hcolons, structPart_eq_ok_iff.mp hmodule,
          expect_eq_ok_iff.mp hcolons', structPart_eq_ok_iff.mp htype, expect_eq_ok_iff.mp hlt]
      · exact eq_error_of_bind_neverNests (fun _ => hclose _) h hcategory
    · cases h
  · cases h
    cases hcategory

end TypeTag

namespace Walk

/-! ### Parts of tags -/

/-- **A part of a tag starts at a place**, and lies at some depth, if the tag starts at the given
tokens and depth: it is the tag itself, or a part of the element of a vector, or one of a parameter
that the rounds of the parameters come to. -/
inductive PartStarts (limit : Int) : Int → List Token → Int → List Token → Prop
  | whole (depth : Int) (tokens : List Token) : PartStarts limit depth tokens depth tokens
  | element {depth inner : Int} {value : Option Text} {tokens place : List Token}
      (hpart : PartStarts limit (deeper depth) tokens inner place) :
      PartStarts limit depth (⟨.keyword .vector, value⟩ :: .lt :: tokens) inner place
  | param {depth inner : Int} {value moduleName typeName : Option Text}
      {tokens start place : List Token} (hopen : tokens.head? ≠ some .gt)
      (hstart : RoundStarts (readTypeTag (deeper depth) limit) .gt true tokens start)
      (hpart : PartStarts limit (deeper depth) start inner place) :
      PartStarts limit depth (⟨.address, value⟩ :: .colonColon :: ⟨.name, moduleName⟩ ::
        .colonColon :: ⟨.name, typeName⟩ :: .lt :: tokens) inner place

/-- A tag that is found with the levels that are counted is found at its depth. -/
private theorem readTypeTag_eq_ok {depth : Int} {most : Nat} {tag : TypeTag}
    (hmost : tokens.length < most)
    (h : TypeTag.readAbove limit (levelsWithin limit most depth) tokens = (.ok tag, rest)) :
    readTypeTag depth limit tokens = (.ok tag, rest) := by
  by_cases hlimit : limit ≤ depth
  · obtain ⟨most, rfl⟩ := Nat.exists_eq_add_one.mpr (Nat.zero_lt_of_lt hmost)
    rw [levelsWithin, if_pos hlimit] at h
    cases h
  · rwa [readAbove_levelsWithin (Int.not_le.mp hlimit) hmost] at h

/-- **Where a tag is too deep, a part starts** at the limit or below it, and it is not taken. -/
theorem exists_partStarts_of_readAbove {depth : Int} {most : Nat} (hmost : tokens.length < most)
    (h : TypeTag.readAbove limit (levelsWithin limit most depth) tokens = (.error rejection, rest))
    (hcategory : rejection.category = .nesting) :
    ∃ inner, limit ≤ inner ∧ PartStarts limit depth tokens inner rest := by
  induction most generalizing depth tokens with
  | zero => exact absurd hmost (Nat.not_lt_zero _)
  | succ most ih =>
    rw [levelsWithin] at h
    split_ifs at h with hlimit
    · cases h
      exact ⟨depth, hlimit, .whole depth rest⟩
    have hbelow := TypeTag.advances_readAbove limit (levelsWithin limit most (deeper depth))
    rcases TypeTag.exists_of_readAbove_nesting h hcategory with
      ⟨value, mid, rfl, helement⟩ | ⟨value, moduleName, typeName, mid, rfl, hparams⟩
    · simp only [List.length_cons] at hmost
      obtain ⟨inner, hinner, hpart⟩ := ih (by omega) helement
      exact ⟨inner, hinner, .element hpart⟩
    · simp only [List.length_cons] at hmost
      obtain ⟨hopen, start, hstart, hparam⟩ := exists_item_eq_error_of_commaList hbelow hparams
        (by rw [hcategory]; decide)
      have hlength := (hstart.suffix hbelow).length_le
      obtain ⟨inner, hinner, hpart⟩ := ih (by omega) hparam
      refine ⟨inner, hinner, .param hopen (hstart.imp hbelow ?_) hpart⟩
      intro part tag left hsuffix
      have hlength' := hsuffix.length_le
      exact readTypeTag_eq_ok (by omega)

private theorem exists_partStarts {depth : Int}
    (h : readTypeTag depth limit tokens = (.error rejection, rest))
    (hcategory : rejection.category = .nesting) :
    ∃ inner, limit ≤ inner ∧ PartStarts limit depth tokens inner rest := by
  rw [readTypeTag] at h
  split_ifs at h with hlimit
  · rw [TypeTag.read, if_pos hlimit] at h
    cases h
    exact ⟨depth, hlimit, .whole depth tokens⟩
  · exact exists_partStarts_of_readAbove (Nat.lt_succ_self _) h hcategory

/-! ### Items and steps -/

private theorem stopsInPlace_readTypeTag (depth limit : Int) :
    StopsInPlace (readTypeTag depth limit) := by
  intro tokens rest rejection h
  rw [readTypeTag] at h
  split_ifs at h with hlimit
  · rw [TypeTag.read, if_pos hlimit] at h
    cases h
    trivial
  · exact TypeTag.stopsInPlace_readAbove _ _ h

private theorem stopsInPlace_readArgument : StopsInPlace Argument.read := by
  refine stopsInPlace_next_bind fun token => ?_
  by_cases htoken : token.IsLiteral
  · exact .inl (stopsInPlace_ofExcept (Argument.failsOnText_ofToken htoken))
  · rw [Argument.ofToken_of_not_isLiteral htoken]
    exact .inr ⟨_, rfl, fun _ => List.suffix_rfl⟩

/-- **Every item is read in place.** -/
theorem Item.stopsInPlace_read (sort : Item) : StopsInPlace sort.read := by
  cases sort with
  | string =>
    refine stopsInPlace_stringToken.bind (advances_next.bind fun token => ?_) fun _ =>
      stopsInPlace_pure _
    split_ifs
    · exact advances_pure _
    · exact advances_fail _
  | typeTag depth limit =>
    exact (stopsInPlace_readTypeTag depth limit).bind (advances_readTypeTag depth limit) fun _ =>
      stopsInPlace_pure _
  | argument =>
    exact stopsInPlace_readArgument.bind Argument.advances_read fun _ => stopsInPlace_pure _

/-- **Every step is gone in place.** -/
theorem Step.stopsInPlace_read (step : Step) : StopsInPlace step.read := by
  cases step with
  | next => exact stopsInPlace_next.bind advances_next fun _ => stopsInPlace_pure _
  | peek =>
    intro tokens rest rejection h
    cases h
  | nextIs token =>
    exact (stopsInPlace_nextIs token).bind (advances_nextIs token) fun _ => stopsInPlace_pure _
  | expect token =>
    exact (stopsInPlace_expect token).bind (advances_expect token) fun _ => stopsInPlace_pure _
  | item sort => exact sort.stopsInPlace_read.bind sort.advances_read fun _ => stopsInPlace_pure _
  | commaList sort stop trailing =>
    exact (sort.stopsInPlace_read.commaList sort.advances_read stop trailing).bind
      (advances_commaList sort.advances_read stop trailing) fun _ => stopsInPlace_pure _

theorem Step.advances_read (step : Step) : Advances step.read := by
  cases step with
  | next => exact advances_next.bind fun _ => advances_pure _
  | peek => exact List.suffix_refl
  | nextIs token => exact (advances_nextIs token).bind fun _ => advances_pure _
  | expect token => exact (advances_expect token).bind fun _ => advances_pure _
  | item sort => exact sort.advances_read.bind fun _ => advances_pure _
  | commaList sort stop trailing =>
    exact (advances_commaList sort.advances_read stop trailing).bind fun _ => advances_pure _

/-- A part of a tag that a step reads starts at a place: the step reads the tag, or the rounds of
its comma list come to it. -/
inductive Step.ComesToPart : Step → List Token → Int → Int → List Token → Prop
  | item {depth limit inner : Int} {tokens place : List Token}
      (hpart : PartStarts limit depth tokens inner place) :
      ComesToPart (.item (.typeTag depth limit)) tokens limit inner place
  | listItem {depth limit inner : Int} {stop : Token} {trailing : Bool}
      {tokens start place : List Token} (hopen : tokens.head? ≠ some stop)
      (hstart : RoundStarts (Item.typeTag depth limit).read stop trailing tokens start)
      (hpart : PartStarts limit depth start inner place) :
      ComesToPart (.commaList (.typeTag depth limit) stop trailing) tokens limit inner place

/-- A step that only finds something out stops where its reader stops. -/
private theorem eq_error_of_bind_pure {α β : Type} {r : TokenReader α} {f : α → β}
    (h : (r >>= fun a => pure (f a)) tokens = (.error rejection, rest)) :
    r tokens = (.error rejection, rest) := by
  rcases bind_eq_error_iff.mp h with hstop | ⟨a, mid, -, hpure⟩
  · exact hstop
  · cases hpure

/-- **What a step owes to its place**, if it starts before some tokens and comes to an outcome: what
it finds or why it stops, and the tokens it leaves. -/
structure Step.KeepsPlace (step : Step) (before : List Token)
    (outcome : Except Rejection Finding × List Token) : Prop where
  /-- Looking ahead takes nothing. -/
  looks (h : step = .peek ∨ ∃ token, step = .nextIs token) : outcome.2 = before
  /-- Taking a token takes the first one, unless there is none. -/
  takes (h : step = .next) :
    (∃ token, before = token :: outcome.2 ∧ outcome.1 = .ok (.token token)) ∨
      before = [] ∧ outcome = (.error .outOfTokens, [])
  /-- A token that is named is the last one taken. -/
  names {rejection : Rejection} {shown : Text} (h : outcome.1 = .error rejection)
    (hshown : rejection.actual? = some shown) :
    ∃ token, token :: outcome.2 <:+ before ∧ shown = token.describe
  /-- Where the tokens ran out, none are left. -/
  ranOut (h : outcome.1 = .error .outOfTokens) : outcome.2 = []
  /-- Of a tag that is too deep, and starts at the limit or below it, nothing is taken. -/
  tooDeep {rejection : Rejection} (h : outcome.1 = .error rejection)
    (hcategory : rejection.category = .nesting) :
    ∃ limit inner, limit ≤ inner ∧ step.ComesToPart before limit inner outcome.2
  /-- Of an argument that is turned down for what it stands for, just its token is taken. -/
  argument {rejection : Rejection} (hstep : step = .item .argument)
    (h : outcome.1 = .error rejection) (hconcerns : rejection.ConcernsText) :
    ∃ token, before = token :: outcome.2 ∧ Argument.ofToken token = .error rejection
  /-- So it is in a list of arguments, at the place of the argument. -/
  arguments {rejection : Rejection} {stop : Token} {trailing : Bool}
    (hstep : step = .commaList .argument stop trailing) (h : outcome.1 = .error rejection)
    (hconcerns : rejection.ConcernsText) :
    ∃ token, token :: outcome.2 <:+ before ∧ Argument.ofToken token = .error rejection

/-- An argument that is turned down for what it stands for is one token, which is taken. -/
private theorem exists_token_of_readArgument
    (h : Item.argument.read tokens = (.error rejection, rest))
    (hconcerns : rejection.ConcernsText) :
    ∃ token, tokens = token :: rest ∧ Argument.ofToken token = .error rejection := by
  have hread : Argument.read tokens = (.error rejection, rest) := eq_error_of_bind_pure h
  rcases bind_eq_error_iff.mp hread with hnext | ⟨token, mid, hnext, hstop⟩
  · cases tokens with
    | nil =>
      cases hnext
      exact absurd rfl (hconcerns.category_ne (by decide))
    | cons token tail => cases hnext
  · obtain ⟨hofToken, rfl⟩ := ofExcept_eq_error_iff.mp hstop
    exact ⟨token, next_eq_ok_iff.mp hnext, hofToken⟩

/-- A string or an argument is not turned down for the depth of a tag. -/
private theorem Item.eq_typeTag_of_nesting {sort : Item}
    (h : sort.read tokens = (.error rejection, rest)) (hcategory : rejection.category = .nesting) :
    ∃ depth limit, sort = .typeTag depth limit ∧
      readTypeTag depth limit tokens = (.error rejection, rest) := by
  cases sort with
  | string =>
    have hread : stringToken tokens = (.error rejection, rest) := eq_error_of_bind_pure h
    obtain ⟨token, mid, -, hstop⟩ := neverNests_next.exists_of_bind hread hcategory
    split_ifs at hstop
    · cases hstop
    · cases hstop
      cases hcategory
  | typeTag depth limit => exact ⟨depth, limit, rfl, eq_error_of_bind_pure h⟩
  | argument =>
    have hread : Argument.read tokens = (.error rejection, rest) := eq_error_of_bind_pure h
    obtain ⟨token, mid, -, hstop⟩ := neverNests_next.exists_of_bind hread hcategory
    obtain ⟨hofToken, -⟩ := ofExcept_eq_error_iff.mp hstop
    by_cases htoken : token.IsLiteral
    · have hconcerns := Argument.failsOnText_ofToken htoken rejection hofToken
      exact absurd hcategory (hconcerns.category_ne (by decide))
    · rw [Argument.ofToken_of_not_isLiteral htoken] at hofToken
      cases hofToken
      cases hcategory

/-- **Where a step finds a tag too deep**, that tag starts, and lies at the limit or below it. -/
theorem Step.exists_comesToPart {step : Step}
    (h : step.read tokens = (.error rejection, rest)) (hcategory : rejection.category = .nesting) :
    ∃ limit inner, limit ≤ inner ∧ step.ComesToPart tokens limit inner rest := by
  cases step with
  | next => exact absurd hcategory (neverNests_next (eq_error_of_bind_pure h))
  | peek => cases h
  | nextIs token => cases h
  | expect token =>
    exact absurd hcategory (neverNests_expect token (eq_error_of_bind_pure (f := fun _ => _) h))
  | item sort =>
    obtain ⟨depth, limit, rfl, hread⟩ :=
      Item.eq_typeTag_of_nesting (eq_error_of_bind_pure h) hcategory
    obtain ⟨inner, hinner, hpart⟩ := exists_partStarts hread hcategory
    exact ⟨limit, inner, hinner, .item hpart⟩
  | commaList sort stop trailing =>
    obtain ⟨hopen, start, hstart, hitem⟩ := exists_item_eq_error_of_commaList sort.advances_read
      (eq_error_of_bind_pure h) (by rw [hcategory]; decide)
    obtain ⟨depth, limit, rfl, hread⟩ := Item.eq_typeTag_of_nesting hitem hcategory
    obtain ⟨inner, hinner, hpart⟩ := exists_partStarts hread hcategory
    exact ⟨limit, inner, hinner, .listItem hopen hstart hpart⟩

/-- **Every step keeps its place.** -/
theorem Step.keepsPlace (step : Step) (tokens : List Token) :
    step.KeepsPlace tokens (step.read tokens) where
  looks h := by
    rcases h with rfl | ⟨token, rfl⟩ <;> rfl
  takes h := by
    subst h
    cases tokens with
    | nil => exact .inr ⟨rfl, rfl⟩
    | cons token rest => exact .inl ⟨token, rfl, rfl⟩
  names {rejection shown} h hshown := by
    have hleaves := step.stopsInPlace_read (Prod.ext h rfl : step.read tokens = (_, _))
    exact hleaves.exists_token hshown
  ranOut h := step.stopsInPlace_read (Prod.ext h rfl : step.read tokens = (_, _))
  tooDeep h hcategory := exists_comesToPart (Prod.ext h rfl) hcategory
  argument {rejection} hstep h hconcerns := by
    subst hstep
    exact exists_token_of_readArgument (eq_error_of_bind_pure (Prod.ext h rfl)) hconcerns
  arguments {rejection stop trailing} hstep h hconcerns := by
    subst hstep
    have hlist : TokenReader.commaList Item.argument.read stop trailing tokens =
        (.error rejection, _) := eq_error_of_bind_pure (Prod.ext h rfl)
    obtain ⟨-, place, hstarts, hitem⟩ := exists_item_eq_error_of_commaList
      Item.argument.advances_read hlist (hconcerns.category_ne (by decide))
    obtain ⟨token, rfl, hofToken⟩ := exists_token_of_readArgument hitem hconcerns
    exact ⟨token, hstarts.suffix Item.argument.advances_read, hofToken⟩

/-! ### Walks -/

/-- The tokens that a walk leaves. -/
def left : List Step → List Token → List Token
  | [], tokens => tokens
  | step :: steps, tokens => left steps (step.read tokens).2

/-- **A walk keeps its place**, on any tokens and whatever its steps come to. The tokens fall into
one stretch for each step and what is left in the end; each step starts where the stretches before
it end, takes its own, and keeps its place there. -/
theorem run_keeps_place (steps : List Step) (tokens : List Token) :
    ∃ stretches : List (List Token), stretches.length = steps.length ∧
      tokens = stretches.flatten ++ left steps tokens ∧
      ∀ i step, steps[i]? = some step → ∃ result,
        (run steps tokens)[i]? =
          some (result, (stretches.drop (i + 1)).flatten ++ left steps tokens) ∧
        step.KeepsPlace ((stretches.drop i).flatten ++ left steps tokens)
          (result, (stretches.drop (i + 1)).flatten ++ left steps tokens) := by
  induction steps generalizing tokens with
  | nil => exact ⟨[], rfl, rfl, fun i step hstep => by simp at hstep⟩
  | cons first steps ih =>
    obtain ⟨taken, htaken⟩ := first.advances_read tokens
    obtain ⟨stretches, hlength, hrest, hsteps⟩ := ih (first.read tokens).2
    have htokens : tokens = (taken :: stretches).flatten ++ left (first :: steps) tokens := by
      rw [List.flatten_cons, List.append_assoc, left, ← hrest, htaken]
    refine ⟨taken :: stretches, congrArg (· + 1) hlength, htokens, fun i step hstep => ?_⟩
    cases i with
    | zero =>
      obtain rfl : first = step := Option.some.inj hstep
      refine ⟨(first.read tokens).1, ?_, ?_⟩
      · rw [run, List.drop_one, List.tail_cons, left, ← hrest]
        rfl
      · rw [List.drop_one, List.tail_cons, List.drop_zero, ← htokens, left, ← hrest]
        exact first.keepsPlace tokens
    | succ i =>
      obtain ⟨result, hresult, hkeeps⟩ := hsteps i step hstep
      exact ⟨result, hresult, hkeeps⟩

/-- A wrong token is taken by the step that turns it down, and the next step takes the one behind
it. -/
theorem run_keeps_place_mismatch :
    run [.expect .comma, .next] [.gt, .lt] =
      [(.error (.mismatch .comma .gt), [.lt]), (.ok (.token .lt), [])] ∧
    ∃ stretches : List (List Token), [.gt, .lt] = stretches.flatten ++ [] ∧
      ∃ result, (run [.expect .comma, .next] [.gt, .lt])[0]? =
          some (result, (stretches.drop 1).flatten ++ []) ∧
        (Step.expect .comma).KeepsPlace (stretches.flatten ++ [])
          (result, (stretches.drop 1).flatten ++ []) := by
  obtain ⟨stretches, -, htokens, hsteps⟩ := run_keeps_place [.expect .comma, .next] [.gt, .lt]
  exact ⟨rfl, stretches, htokens, hsteps 0 (.expect .comma) rfl⟩

end Walk

end MoveText
