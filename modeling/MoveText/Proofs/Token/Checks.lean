import Mathlib.Tactic.SplitIfs
import MoveText.Argument.Grammar
import MoveText.TypeTag

/-!
# Checks of what tokens stand for

What a token stands for is checked apart from where the token stands: the digits of an address, the
letters of an identifier, the size of an integer, the digits of a byte string. A rejection
`ConcernsText` if it comes of such a check. It names neither a token nor an offset. The results of
these checks fail in no other way (`FailsOnText`).
-/

namespace MoveText

/-- The rejection is one of what a token stands for. -/
def Rejection.ConcernsText (rejection : Rejection) : Prop :=
  rejection.category = .semantic ∨ rejection.category = .numeral ∨ rejection.category = .bareToken

namespace Rejection.ConcernsText

variable {rejection : Rejection}

theorem actual?_eq_none (h : rejection.ConcernsText) : rejection.actual? = none := by
  cases rejection <;> first | rfl | (rcases h with h | h | h <;> cases h)

theorem category_ne {other : RejectionCategory} (h : rejection.ConcernsText)
    (hother : other ≠ .semantic ∧ other ≠ .numeral ∧ other ≠ .bareToken) :
    rejection.category ≠ other := by
  obtain ⟨hsemantic, hnumeral, hbareToken⟩ := hother
  rintro rfl
  rcases h with h | h | h
  · exact hsemantic h
  · exact hnumeral h
  · exact hbareToken h

end Rejection.ConcernsText

/-- The result fails only over what a token stands for. -/
def FailsOnText {α : Type} (result : Except Rejection α) : Prop :=
  ∀ rejection, result = .error rejection → rejection.ConcernsText

namespace FailsOnText

variable {α β : Type}

theorem ok (a : α) : FailsOnText (.ok a) := by
  rintro _ ⟨⟩

theorem error {rejection : Rejection} (h : rejection.ConcernsText) :
    FailsOnText (.error rejection : Except Rejection α) := by
  rintro _ ⟨⟩
  exact h

theorem bind {result : Except Rejection α} {f : α → Except Rejection β} (h : FailsOnText result)
    (hf : ∀ a, FailsOnText (f a)) : FailsOnText (result >>= f) := by
  cases result with
  | error rejection => exact error (h rejection rfl)
  | ok a => exact hf a

theorem textOf (token : Token) : FailsOnText (TokenReader.textOf token) := by
  rw [TokenReader.textOf]
  split
  · exact ok _
  · exact error (.inr (.inr rfl))

theorem ofLiteral (s : Text) : FailsOnText (Address.ofLiteral s) := by
  rw [Address.ofLiteral]
  split
  · exact error (.inl rfl)
  · split_ifs
    · exact error (.inl rfl)
    · exact ok _

theorem checkGiven (name : Option Text) : FailsOnText (Identifier.checkGiven name) := by
  cases name with
  | none => exact ok _
  | some s =>
    rw [Identifier.checkGiven, Identifier.check]
    split_ifs
    · exact ok _
    · exact error (.inl rfl)

theorem create (address : Text) (moduleName typeName : Option Text) :
    FailsOnText (StructName.create address moduleName typeName) :=
  (ofLiteral address).bind fun _ => (checkGiven moduleName).bind fun _ =>
    (checkGiven typeName).bind fun _ => ok _

theorem ofNumeral (width : Width) (digits : Text) :
    FailsOnText (Argument.ofNumeral width digits) := by
  rw [Argument.ofNumeral]
  split
  · exact error (.inr (.inl rfl))
  · split_ifs
    · exact error (.inl rfl)
    · exact ok _

theorem ofHex (digits : Text) : FailsOnText (Argument.ofHex digits) := by
  rw [Argument.ofHex]
  split_ifs
  · exact error (.inl rfl)
  · exact ok _
  · exact error (.inl rfl)

end FailsOnText

/-! ### Tokens that are literals -/

/-- The token is of one of the kinds that stand for an argument. -/
def Token.IsLiteral (t : Token) : Prop :=
  (∃ width, t.kind = .integer width) ∨ (∃ value, t.kind = .keyword (.truth value)) ∨
    t.kind = .address ∨ t.kind = .bytes

/-- A literal is turned down only over what it stands for. -/
theorem Argument.failsOnText_ofToken {t : Token} (ht : t.IsLiteral) : FailsOnText (ofToken t) := by
  rw [ofToken]
  rcases ht with ⟨width, ht⟩ | ⟨value, ht⟩ | ht | ht <;> rw [ht]
  · exact (FailsOnText.textOf t).bind fun digits => .ofNumeral width digits
  · exact .ok _
  · exact (FailsOnText.textOf t).bind fun s => (FailsOnText.ofLiteral s).bind fun _ => .ok _
  · exact (FailsOnText.textOf t).bind fun digits => .ofHex digits

/-- Any other token is unexpected. -/
theorem Argument.ofToken_of_not_isLiteral {t : Token} (ht : ¬ t.IsLiteral) :
    ofToken t = .error (.unexpected .argument t) := by
  rw [ofToken]
  split
  · next width hkind => exact absurd (.inl ⟨width, hkind⟩) ht
  · next value hkind => exact absurd (.inr (.inl ⟨value, hkind⟩)) ht
  · next hkind => exact absurd (.inr (.inr (.inl hkind))) ht
  · next hkind => exact absurd (.inr (.inr (.inr hkind))) ht
  · rfl

end MoveText
