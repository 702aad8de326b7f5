import MoveText.Proofs.Token.Rounds
import MoveText.Proofs.TypeTag.Reading

/-!
# Levels of tags in tokens

`TypeTag.readAbove` counts the levels that are left above the limit. Each level takes a token, so
with more levels than there are tokens it makes no difference how many they are: the limit is never
met (`readAbove_eq_of_lt`). Two readers that do the same on short lists of tokens make comma lists,
and type parameters, that do the same there.
-/

namespace MoveText

namespace TokenReader

variable {α β : Type} {size : Nat} {r r' : TokenReader α} {tokens : List Token}

/-- On no more than so many tokens the two readers do the same. -/
def AgreeWithin (size : Nat) (r r' : TokenReader α) : Prop :=
  ∀ tokens : List Token, tokens.length ≤ size → r tokens = r' tokens

/-- Readers that do the same first, and then do the same with what is left, do the same. -/
theorem AgreeWithin.bind {f f' : α → TokenReader β} (h : AgreeWithin size r r') (hr : Advances r)
    (hf : ∀ a, AgreeWithin size (f a) (f' a)) : AgreeWithin size (r >>= f) (r' >>= f') := by
  intro tokens hlength
  have hrest := (hr tokens).length_le
  rcases hread : r tokens with ⟨rejection | a, rest⟩
  · rw [bind_of_error hread, bind_of_error ((h tokens hlength).symm.trans hread)]
  · rw [hread] at hrest
    rw [bind_of_ok hread, bind_of_ok ((h tokens hlength).symm.trans hread)]
    exact hf a rest (Nat.le_trans hrest hlength)

theorem agreeWithin_refl (size : Nat) (r : TokenReader α) : AgreeWithin size r r := fun _ _ => rfl

/-- Behind a token that is taken there is one token less. -/
theorem AgreeWithin.next_bind {f f' : Token → TokenReader β}
    (h : ∀ token, AgreeWithin size (f token) (f' token)) :
    AgreeWithin (size + 1) (next >>= f) (next >>= f') := by
  intro tokens hlength
  cases tokens with
  | nil => rfl
  | cons token rest => exact h token rest (Nat.le_of_succ_le_succ hlength)

theorem AgreeWithin.itemsWithin (h : AgreeWithin size r r') (hr : Advances r) (stop : Token)
    (trailing : Bool) (rounds : Nat) :
    AgreeWithin size (itemsWithin r stop trailing rounds)
      (itemsWithin r' stop trailing rounds) := by
  induction rounds with
  | zero => exact agreeWithin_refl size _
  | succ rounds ih =>
    refine h.bind hr fun first => ?_
    refine (agreeWithin_refl size _).bind (advances_nextIs stop) fun closes => ?_
    split_ifs
    · exact agreeWithin_refl size _
    · refine (agreeWithin_refl size _).bind (advances_expect .comma) fun _ => ?_
      refine (agreeWithin_refl size _).bind (advances_nextIs stop) fun closes => ?_
      split_ifs
      · exact agreeWithin_refl size _
      · exact ih.bind (advances_itemsWithin hr stop trailing rounds) fun _ =>
          agreeWithin_refl size _

theorem AgreeWithin.commaList (h : AgreeWithin size r r') (hr : Advances r) (stop : Token)
    (trailing : Bool) :
    AgreeWithin size (commaList r stop trailing) (commaList r' stop trailing) := by
  intro tokens hlength
  rw [TokenReader.commaList, TokenReader.commaList,
    h.itemsWithin hr stop trailing (tokens.length + 1) tokens hlength]

end TokenReader

open TokenReader

namespace TypeTag

variable {size levels levels' : Nat} {limit : Int}

private theorem agreeWithin_readParams {param param' : TokenReader TypeTag}
    (h : AgreeWithin size param param') (hparam : Advances param) :
    AgreeWithin size (readParams param) (readParams param') := by
  refine (agreeWithin_refl size _).bind (advances_nextIs .lt) fun opens => ?_
  split_ifs
  · refine (agreeWithin_refl size _).bind (advances_expect .lt) fun _ => ?_
    exact (h.commaList hparam .gt true).bind (advances_commaList hparam .gt true) fun _ =>
      agreeWithin_refl size _
  · exact agreeWithin_refl size _

/-- A level takes a token before it asks for those below. -/
private theorem agreeWithin_readAbove_succ
    (h : AgreeWithin size (readAbove limit levels) (readAbove limit levels')) :
    AgreeWithin (size + 1) (readAbove limit (levels + 1)) (readAbove limit (levels' + 1)) := by
  have hbelow := advances_readAbove limit levels
  refine AgreeWithin.next_bind fun token => ?_
  split
  · exact agreeWithin_refl size _
  · exact (agreeWithin_refl size _).bind (advances_expect .lt) fun _ =>
      h.bind hbelow fun _ => agreeWithin_refl size _
  · refine (agreeWithin_refl size _).bind (advances_expect .colonColon) fun _ => ?_
    refine (agreeWithin_refl size _).bind advances_structPart fun _ => ?_
    refine (agreeWithin_refl size _).bind (advances_expect .colonColon) fun _ => ?_
    refine (agreeWithin_refl size _).bind advances_structPart fun _ => ?_
    exact (agreeWithin_readParams h hbelow).bind (advances_readParams hbelow) fun _ =>
      agreeWithin_refl size _
  · exact agreeWithin_refl size _

/-- With more levels than tokens, their number makes no difference. -/
theorem agreeWithin_readAbove (limit : Int) (hlevels : size < levels) (hlevels' : size < levels') :
    AgreeWithin size (readAbove limit levels) (readAbove limit levels') := by
  induction size generalizing levels levels' with
  | zero =>
    obtain ⟨levels, rfl⟩ := Nat.exists_eq_add_one.mpr hlevels
    obtain ⟨levels', rfl⟩ := Nat.exists_eq_add_one.mpr hlevels'
    intro tokens hlength
    obtain rfl := List.eq_nil_of_length_eq_zero (Nat.le_zero.mp hlength)
    rfl
  | succ size ih =>
    obtain ⟨levels, rfl⟩ := Nat.exists_eq_add_one.mpr (Nat.zero_lt_of_lt hlevels)
    obtain ⟨levels', rfl⟩ := Nat.exists_eq_add_one.mpr (Nat.zero_lt_of_lt hlevels')
    exact agreeWithin_readAbove_succ (ih (by omega) (by omega))

/-- **The limit is never met** by fewer tokens than there are levels above it. -/
theorem readAbove_eq_of_lt (limit : Int) {tokens : List Token} (hlevels : tokens.length < levels)
    (hlevels' : tokens.length < levels') :
    readAbove limit levels tokens = readAbove limit levels' tokens :=
  agreeWithin_readAbove limit hlevels hlevels' tokens (Nat.le_refl _)

end TypeTag

end MoveText
