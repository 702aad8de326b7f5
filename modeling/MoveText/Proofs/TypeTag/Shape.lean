import MoveText.Proofs.Token.Blame
import MoveText.Proofs.TypeTag.Derivation

/-!
# The shape of type tags

`TypeTag.Shape` is the grammar of type tags by the kinds of tokens alone: it asks neither how deep a
tag is nor what its tokens stand for. Every derivation has this shape (`Derives.shape`). The reader
of tags predicts it, at every limit (`predicts_readAbove`): it turns down no tag of this shape for
its tokens, and of other tokens it blames the first behind which no shape can be completed.
-/

namespace MoveText

/-- Stretches of the language in brackets, or no brackets. -/
def Token.inBrackets (L : Language Token) : Language Token :=
  {brackets | ∃ stretches, Bracketed stretches brackets ∧ ∀ stretch ∈ stretches, stretch ∈ L}

/-- **The shape of type tags**, by the kinds of their tokens. -/
inductive TypeTag.Shape : List Token → Prop
  | primitive (type : Primitive) (value : Option Text) :
      Shape [⟨.keyword (.primitive type), value⟩]
  | vector {words : List Token} (value : Option Text) (helement : Shape words) :
      Shape (⟨.keyword .vector, value⟩ :: .lt :: (words ++ [.gt]))
  | struct {stretches : List (List Token)} {brackets : List Token}
      (address moduleName typeName : Option Text) (hbrackets : Token.Bracketed stretches brackets)
      (hparams : ∀ words ∈ stretches, Shape words) :
      Shape (⟨.address, address⟩ :: .colonColon :: ⟨.name, moduleName⟩ :: .colonColon ::
        ⟨.name, typeName⟩ :: brackets)

/-- What derives a tag has the shape of one. -/
theorem TypeTag.Derives.shape {limit depth : Nat} {words : List Token} {tag : TypeTag}
    (h : Derives limit depth words tag) : Shape words := by
  induction h with
  | primitive _ type => exact .primitive type none
  | vector _ _ ih => exact .vector none ih
  | struct _ _ _ _ hbrackets _ ih =>
    refine .struct _ _ _ hbrackets fun words hwords => ?_
    obtain ⟨part, hpart, rfl⟩ := List.mem_map.mp hwords
    exact ih part hpart

/-- The language of the shapes of tags. -/
def TypeTag.shapes : Language Token := {words | Shape words}

namespace Token

variable {K L : Language Token} {words : List Token}

private theorem mem_inBrackets_mul_iff :
    words ∈ inBrackets L * K ↔
      words ∈ K ∨ words ∈ {[.lt]} * (listsOf L * ({[.gt]} * K)) := by
  rw [Language.mem_mul, mem_singleton_mul_iff]
  constructor
  · rintro ⟨_, ⟨stretches, hbrackets, hmem⟩, back, hback, rfl⟩
    have hclosed : .gt :: back ∈ ({[.gt]} : Language Token) * K :=
      cons_mem_singleton_mul_iff.mpr ⟨rfl, hback⟩
    cases hbrackets with
    | absent => exact .inl hback
    | empty => exact .inr ⟨_, Language.append_mem_mul (nil_mem_listsOf L) hclosed, rfl⟩
    | listed hne extra =>
      refine .inr ⟨listed stretches extra ++ .gt :: back, ?_, by simp⟩
      exact Language.append_mem_mul ⟨stretches, extra, fun h => absurd h hne, hmem, rfl⟩ hclosed
  · rintro (hwords | ⟨_, hlist, rfl⟩)
    · exact ⟨[], ⟨[], .absent, by simp⟩, words, hwords, rfl⟩
    · obtain ⟨_, ⟨stretches, extra, hextra, hmem, rfl⟩, _, hclosed, rfl⟩ :=
        Language.mem_mul.mp hlist
      obtain ⟨back, hback, rfl⟩ := mem_singleton_mul_iff.mp hclosed
      by_cases hnil : stretches = []
      · subst hnil
        obtain rfl := hextra rfl
        exact ⟨[.lt, .gt], ⟨[], .empty, by simp⟩, back, hback, rfl⟩
      · exact ⟨_, ⟨stretches, .listed hnil extra, hmem⟩, back, hback, by simp⟩

private theorem Completable.inBrackets_mul (hK : Completable K) (L : Language Token) :
    Completable (inBrackets L * K) := by
  obtain ⟨words, hwords, hoccur⟩ := hK
  exact ⟨words, mem_inBrackets_mul_iff.mpr (.inl hwords), hoccur⟩

end Token

namespace TypeTag

open Token TokenReader

variable {K L : Language Token} {words : List Token} {value : Option Text}

/-! ### Shapes by their first token -/

/-- A shape starts with a token that closes nothing. -/
theorem startsBut_shapes {stop : Token} (hstop : stop = .gt ∨ stop = .eof) :
    StartsBut stop shapes := by
  intro words h
  rcases hstop with rfl | rfl <;> cases h <;> exact ⟨_, _, rfl, by simp [Token.gt, Token.eof]⟩

private theorem completable_shapes : Completable shapes :=
  ⟨_, Shape.primitive .bool none, List.forall_mem_singleton.mpr (.inr ⟨_, .keyword _⟩)⟩

theorem primitive_cons_mem_iff {type : Primitive} :
    ⟨.keyword (.primitive type), value⟩ :: words ∈ shapes * K ↔ words ∈ K := by
  rw [Language.mem_mul]
  constructor
  · rintro ⟨_, hshape, back, hback, heq⟩
    cases hshape with
    | primitive =>
      obtain ⟨-, rfl⟩ := List.cons.inj heq
      exact hback
    | _ => cases heq
  · exact fun h => ⟨_, .primitive type value, words, h, rfl⟩

theorem vector_cons_mem_iff :
    ⟨.keyword .vector, value⟩ :: words ∈ shapes * K ↔
      words ∈ {[.lt]} * (shapes * ({[.gt]} * K)) := by
  rw [Language.mem_mul, mem_singleton_mul_iff]
  constructor
  · rintro ⟨_, hshape, back, hback, heq⟩
    cases hshape with
    | vector _ helement =>
      obtain ⟨-, rfl⟩ := List.cons.inj heq
      refine ⟨_, Language.append_mem_mul helement (cons_mem_singleton_mul_iff.mpr ⟨rfl, hback⟩), ?_⟩
      simp
    | _ => cases heq
  · rintro ⟨_, hmem, rfl⟩
    obtain ⟨element, helement, _, hclosed, rfl⟩ := Language.mem_mul.mp hmem
    obtain ⟨back, hback, rfl⟩ := mem_singleton_mul_iff.mp hclosed
    exact ⟨_, .vector value helement, back, hback, by simp⟩

theorem address_cons_mem_iff :
    ⟨.address, value⟩ :: words ∈ shapes * K ↔
      words ∈ {[.colonColon]} * (names * ({[.colonColon]} * (names *
        (inBrackets shapes * K)))) := by
  rw [Language.mem_mul, mem_singleton_mul_iff]
  constructor
  · rintro ⟨_, hshape, back, hback, heq⟩
    cases hshape with
    | struct address moduleName typeName hbrackets hparams =>
      obtain ⟨-, rfl⟩ := List.cons.inj heq
      have hparts : _ ∈ inBrackets shapes * K :=
        Language.append_mem_mul ⟨_, hbrackets, hparams⟩ hback
      have htype : ⟨.name, typeName⟩ :: _ ∈ names * (inBrackets shapes * K) :=
        cons_mem_oneOf_mul_iff.mpr ⟨rfl, hparts⟩
      have hmodule : ⟨.name, moduleName⟩ :: _ ∈ names * ({[.colonColon]} * _) :=
        cons_mem_oneOf_mul_iff.mpr ⟨rfl, cons_mem_singleton_mul_iff.mpr ⟨rfl, htype⟩⟩
      exact ⟨_, hmodule, rfl⟩
    | _ => cases heq
  · rintro ⟨_, hmodule, rfl⟩
    obtain ⟨⟨_, moduleName⟩, _, rfl, hcolons, rfl⟩ := mem_oneOf_mul_iff.mp hmodule
    obtain ⟨_, htype, rfl⟩ := mem_singleton_mul_iff.mp hcolons
    obtain ⟨⟨_, typeName⟩, _, rfl, hparts, rfl⟩ := mem_oneOf_mul_iff.mp htype
    obtain ⟨_, ⟨stretches, hbrackets, hparams⟩, back, hback, rfl⟩ := Language.mem_mul.mp hparts
    exact ⟨_, .struct value moduleName typeName hbrackets hparams, back, hback, rfl⟩

/-- No shape starts with a token of any other kind. -/
private theorem cons_notMem_shapes_mul {t : Token}
    (hprimitive : ∀ type, t.kind ≠ .keyword (.primitive type))
    (hvector : t.kind ≠ .keyword .vector) (haddress : t.kind ≠ .address) :
    t :: words ∉ shapes * K := by
  intro hmem
  obtain ⟨_, hshape, back, -, heq⟩ := Language.mem_mul.mp hmem
  cases hshape with
  | primitive type => exact hprimitive type ((List.cons.inj heq).1 ▸ rfl)
  | vector => exact hvector ((List.cons.inj heq).1 ▸ rfl)
  | struct => exact haddress ((List.cons.inj heq).1 ▸ rfl)

/-! ### The reader of tags -/

/-- Behind the name of a struct type, its parameters may follow in brackets. -/
private theorem blames_readParams {β : Type} {param : TokenReader TypeTag}
    {f : List TypeTag → TokenReader β} (hparam : Predicts param L) (hstarts : StartsBut .gt L)
    (hK : CanFollow K) (hf : ∀ params, Blames K (f params)) :
    Blames (inBrackets L * K) (readParams param >>= f) := by
  have hgt : Token.gt.Occurs := .inr ⟨_, .gt⟩
  have hlt : Token.lt.Occurs := .inr ⟨_, .lt⟩
  have hall := hK.completable.inBrackets_mul L
  intro tokens
  cases tokens with
  | nil => exact (hf [] []).of_nil
  | cons t rest =>
    rw [readParams, bind_assoc, bind_of_ok (nextIs_eq_ok_iff.mpr ⟨rfl, rfl⟩)]
    by_cases hopens : t = .lt
    · -- what follows does not start with a bracket, so it opens the parameters
      subst hopens
      simp only [List.head?_cons, BEq.rfl, if_true, bind_assoc, pure_bind]
      have hclosed : ∀ params, Blames ({[.gt]} * K) (expect .gt >>= fun _ => f params) :=
        fun params => blames_expect_bind hgt hK.completable (hf params)
      have hlist := blames_commaList hstarts hgt hK.completable hparam (by decide) (by decide)
        hclosed
      have hlists := (hK.completable.singleton_mul hgt).listsOf_mul L
      refine (blames_expect_bind hlt hlists hlist (.lt :: rest)).of_head hall fun words => ?_
      exact mem_inBrackets_mul_iff.trans (or_iff_right (hK.not_lt words))
    · have hnone : ¬ ((t :: rest).head? == some .lt) = true := by simpa using hopens
      rw [if_neg hnone, pure_bind]
      refine (hf [] (t :: rest)).of_head hall fun words => mem_inBrackets_mul_iff.trans ?_
      exact or_iff_left fun hmem => hopens (cons_mem_singleton_mul_iff.mp hmem).1

/-- A name that is part of a struct type is taken. -/
private theorem blames_structPart_bind {β : Type} {f : Option Text → TokenReader β}
    (hK : Completable K) (hf : ∀ part, Blames K (f part)) :
    Blames (names * K) (structPart >>= f) := by
  rw [structPart, bind_assoc]
  refine blames_next_bind exists_name hK (fun t ht => ?_) fun t ht tokens => ?_
  · rw [if_pos ht, pure_bind]
    exact hf t.value
  · rw [if_neg ht]
    exact ⟨_, rfl, rfl⟩

/-- **The reader of tags predicts their shape.** -/
theorem predicts_readAbove (limit : Int) (levels : Nat) :
    Predicts (readAbove limit levels) shapes := by
  induction levels with
  | zero => exact fun _ _ _ _ _ => blames_fail rfl
  | succ levels ih =>
    intro β f K hK hf tokens
    have hlt : Token.lt.Occurs := .inr ⟨_, .lt⟩
    have hgt : Token.gt.Occurs := .inr ⟨_, .gt⟩
    have hcolons : Token.colonColon.Occurs := .inr ⟨_, .colonColon⟩
    cases tokens with
    | nil => exact blamesOn_of_silent rfl
    | cons t rest =>
      obtain ⟨kind, value⟩ := t
      rw [readAbove, bind_assoc, bind_of_ok (next_eq_ok_iff.mpr rfl)]
      dsimp only
      split
      · exact (hf _ rest).cons fun words => primitive_cons_mem_iff
      · simp only [bind_assoc, pure_bind]
        have hclosed : ∀ element,
            Blames ({[.gt]} * K) (expect .gt >>= fun _ => f (vector element)) := fun element =>
          blames_expect_bind hgt hK.completable (hf (vector element))
        have helement := ih (canFollow_singleton_mul hgt (by decide) hK.completable) hclosed
        have hall := completable_shapes.mul (hK.completable.singleton_mul hgt)
        exact (blames_expect_bind hlt hall helement rest).cons fun words => vector_cons_mem_iff
      · simp only [bind_assoc, pure_bind]
        -- from the last part to the first, with what can be completed behind each
        have hchecks : ∀ moduleName typeName params, Blames K
            (ofExcept (textOf ⟨.address, value⟩) >>= fun address =>
              ofExcept (StructName.create address moduleName typeName) >>= fun name =>
                f (struct name params)) := fun moduleName typeName params =>
          blames_ofExcept_bind (.textOf _) fun address =>
            blames_ofExcept_bind (.create address moduleName typeName) fun name => hf _
        have hparams := fun moduleName typeName =>
          blames_readParams ih (startsBut_shapes (.inl rfl)) hK (hchecks moduleName typeName)
        have hbrackets := hK.completable.inBrackets_mul shapes
        have htype := fun moduleName => blames_structPart_bind hbrackets (hparams moduleName)
        have hcolons' := fun moduleName =>
          blames_expect_bind hcolons hbrackets.names_mul (htype moduleName)
        have hmodule := blames_structPart_bind (hbrackets.names_mul.singleton_mul hcolons) hcolons'
        have hname := blames_expect_bind hcolons
          (hbrackets.names_mul.singleton_mul hcolons).names_mul hmodule
        exact (hname rest).cons fun words => address_cons_mem_iff
      · next hprimitive hvector haddress =>
        exact blamesOn_head (completable_shapes.mul hK.completable)
          (fun words => cons_notMem_shapes_mul hprimitive hvector haddress) rfl

end TypeTag

end MoveText
