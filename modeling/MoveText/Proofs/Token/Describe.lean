import MoveText.Proofs.Text.Quoted
import MoveText.Proofs.Walk.Place
import MoveText.Token.View

/-!
# Tokens shown in messages

A message shows a token by the name of its kind and its quoted value, and tokens are compared by
their kinds and values. Both tell the same tokens apart (`Token.describe_injective`): the name of a
kind has no parenthesis, so it ends where the value starts, and a value that is absent shows no
parentheses, while an empty one does. It is the same for records that stand for tokens
(`Token.IsViewOf`).

What a rejection shows as expected is a token that differs from the one found, or the name of a sort
of items, which starts with a small letter as no token does. So no rejection on a walk shows the
same as expected and as found (`messages_tell_tokens`).
-/

namespace MoveText

namespace TokenKind

/-- Every kind is listed. -/
private theorem mem_all (kind : TokenKind) : kind ∈ all := by
  rcases kind with ((_ | _ | _ | _ | _ | _) | _ | _ | _) | _ | _ | _ | _ | _ | _ | _ | _ |
    (_ | _ | _) | _ <;> decide

private theorem ofLabel?_label (kind : TokenKind) : ofLabel? kind.label = some kind := by
  have hall : ∀ kind ∈ all, ofLabel? kind.label = some kind := by decide +kernel
  exact hall kind kind.mem_all

/-- Kinds have different names. -/
theorem label_injective : Function.Injective label := by
  intro kind kind' h
  refine Option.some.inj ?_
  rw [← ofLabel?_label kind, h, ofLabel?_label]

/-- Whether a text is like the name of a kind: it starts with a capital and has no parenthesis. -/
def isLabelLike (s : Text) : Bool := Text.startsIn Char.isUpper s && s.all (· != '(')

private theorem isLabelLike_label (kind : TokenKind) : isLabelLike kind.label := by
  have hall : ∀ kind ∈ all, isLabelLike kind.label := by decide +kernel
  exact hall kind kind.mem_all

end TokenKind

namespace Token

variable {a b : Token} {v w : Value}

/-- The name of the kind ends at the first parenthesis. -/
private theorem takeWhile_describe (t : Token) :
    t.describe.takeWhile (· != '(') = t.kind.label := by
  have hlabel := List.all_eq_true.mp (Bool.and_eq_true_iff.mp t.kind.isLabelLike_label).2
  obtain ⟨kind, _ | value⟩ := t
  · have hrun := Text.takeWhile_run hlabel (Text.startsIn_nil _)
    rwa [List.append_nil] at hrun
  · exact Text.takeWhile_run hlabel rfl

/-- **Different tokens are shown differently.** -/
theorem describe_injective : Function.Injective describe := by
  intro a b h
  have hkind : a.kind = b.kind := TokenKind.label_injective (by
    rw [← takeWhile_describe, h, takeWhile_describe])
  obtain ⟨kind, _ | value⟩ := a <;> obtain ⟨kind', _ | value'⟩ := b <;> obtain rfl := hkind
  · rfl
  · simp [describe] at h
  · simp [describe] at h
  · have hquoted := List.append_cancel_right (List.cons.inj (List.append_cancel_left h)).2
    rw [Text.quoted_injective hquoted]

/-- Every token is shown with a capital in front. -/
private theorem startsIn_isUpper_describe (t : Token) : Text.startsIn Char.isUpper t.describe := by
  have hlabel := (Bool.and_eq_true_iff.mp t.kind.isLabelLike_label).1
  have hne : t.kind.label ≠ [] := by
    intro hnil
    rw [hnil] at hlabel
    cases hlabel
  obtain ⟨kind, _ | value⟩ := t
  · exact hlabel
  · exact (Text.startsIn_append hne _).trans hlabel

/-! ### Records that stand for tokens -/

/-- **A value stands for a token**: its field `kind` is the name of the kind, and its field `value`
is the text of the token, or absent where the token has none. Other fields do not matter. -/
def IsViewOf (v : Value) (t : Token) : Prop :=
  v.field? kindName = some (.text t.kind.label) ∧ v.field? valueName = t.value.map .text

private theorem IsViewOf.isRecord (h : IsViewOf v a) : v.isObject ∧ v.isNull = false := by
  cases v with
  | record fields => exact ⟨rfl, rfl⟩
  | _ => cases h.1

/-- A value is shown as the token that it stands for. -/
theorem IsViewOf.describeView?_eq (h : IsViewOf v a) : describeView? v = some a.describe := by
  obtain ⟨hkind, hvalue⟩ := h
  rw [describeView?, if_pos (IsViewOf.isRecord ⟨hkind, hvalue⟩).1, hkind, hvalue]
  obtain ⟨kind, _ | value⟩ := a <;> rfl

private theorem isSameOption_map_text (s t : Option Text) :
    Value.isSameOption (s.map .text) (t.map .text) = decide (s = t) := by
  cases s <;> cases t <;> simp [Value.isSameOption, Value.isSame, beq_eq_decide]

/-- Values are compared like the tokens that they stand for. -/
theorem IsViewOf.isSameView?_eq (h : IsViewOf v a) (h' : IsViewOf w b) :
    isSameView? v w = some (decide (a = b)) := by
  have hkinds := isSameOption_map_text (some a.kind.label) (some b.kind.label)
  have hvalues := isSameOption_map_text a.value b.value
  obtain ⟨hobject, hnull⟩ := h.isRecord
  obtain ⟨hobject', hnull'⟩ := h'.isRecord
  simp only [Option.map_some, Option.some.injEq, TokenKind.label_injective.eq_iff] at hkinds
  rw [isSameView?, h.1, h.2, h'.1, h'.2, hkinds, hvalues, hnull, hnull', hobject, hobject']
  obtain ⟨kind, value⟩ := a
  obtain ⟨kind', value'⟩ := b
  by_cases hkind : kind = kind' <;> simp [hkind]

end Token

/-! ### Rejections -/

namespace Rejection

variable {rejection : Rejection} {tokens rest : List Token} {expected actual : Text}

/-- The name of a sort of items starts with a small letter. -/
private theorem startsIn_isUpper_wanted (wanted : Wanted) :
    Text.startsIn Char.isUpper wanted.label = false := by
  cases wanted <;> decide

/-- A rejection that leaves off where it should does not show the same as expected and as found. -/
private theorem LeavesOff.expected_ne_actual (h : rejection.LeavesOff tokens rest)
    (hexpected : rejection.expected? = some expected) (hactual : rejection.actual? = some actual) :
    expected ≠ actual := by
  rintro rfl
  cases rejection with
  | mismatch wanted found =>
    refine h.1 (Token.describe_injective ?_)
    exact Option.some.inj (hexpected.trans hactual.symm)
  | notAName found =>
    have hcapital := found.startsIn_isUpper_describe
    rw [Option.some.inj (hactual.trans hexpected.symm)] at hcapital
    cases hcapital
  | unexpected wanted found =>
    have hcapital := found.startsIn_isUpper_describe
    rw [Option.some.inj (hactual.trans hexpected.symm), startsIn_isUpper_wanted] at hcapital
    cases hcapital
  | _ => cases hactual

end Rejection

namespace Walk

/-- Each outcome of a walk is that of one of its steps on tokens that were left before. -/
private theorem exists_step_of_mem_run {steps : List Step} {tokens : List Token}
    {outcome : Except Rejection Finding × List Token} (h : outcome ∈ run steps tokens) :
    ∃ (step : Step) (before : List Token), step.read before = outcome := by
  induction steps generalizing tokens with
  | nil => cases h
  | cons step steps ih =>
    rcases List.mem_cons.mp h with rfl | hlater
    · exact ⟨step, tokens, rfl⟩
    · exact ih hlater

end Walk

/-- **Messages tell tokens apart just as comparing them does.** Tokens are shown alike exactly if
they are the same, of whatever kinds and with whatever values, and so are the values that stand for
them. No rejection on a walk, over any tokens, shows the same as expected and as found. -/
theorem messages_tell_tokens (a b : Token) :
    (a.describe = b.describe ↔ a = b) ∧
    (∀ v w, Token.IsViewOf v a → Token.IsViewOf w b →
      Token.describeView? v = some a.describe ∧ Token.isSameView? v w = some (decide (a = b)) ∧
      (Token.describeView? v = Token.describeView? w ↔ Token.isSameView? v w = some true)) ∧
    ∀ steps tokens rejection rest expected actual,
      (.error rejection, rest) ∈ Walk.run steps tokens → rejection.expected? = some expected →
      rejection.actual? = some actual → expected ≠ actual := by
  refine ⟨Token.describe_injective.eq_iff, fun v w hv hw => ?_, ?_⟩
  · rw [hv.describeView?_eq, hw.describeView?_eq, hv.isSameView?_eq hw]
    simp [Token.describe_injective.eq_iff]
  · intro steps tokens rejection rest expected actual hrun hexpected hactual
    obtain ⟨step, before, hread⟩ := Walk.exists_step_of_mem_run hrun
    exact (step.stopsInPlace_read hread).expected_ne_actual hexpected hactual

/-- A name without a text and one with an empty text: they differ, and a step that asks for the one
and finds the other shows so. -/
theorem messages_tell_tokens_empty :
    Token.isSameView? (.record [(Token.kindName, .text "Name".toList)])
        (.record [(Token.valueName, .text []), (Token.kindName, .text "Name".toList)]) =
      some false ∧
    (⟨.name, none⟩ : Token).describe ≠ (⟨.name, some []⟩ : Token).describe := by
  obtain ⟨-, hviews, hwalks⟩ := messages_tell_tokens ⟨.name, none⟩ ⟨.name, some []⟩
  refine ⟨(hviews _ _ ⟨rfl, rfl⟩ ⟨rfl, rfl⟩).2.1, ?_⟩
  exact hwalks [.expect ⟨.name, none⟩] [⟨.name, some []⟩] _ [] _ _
    (List.mem_singleton.mpr rfl) rfl rfl

end MoveText
