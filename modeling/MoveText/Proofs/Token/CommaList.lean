import MoveText.Proofs.Token.Reading

/-!
# Comma lists

`commaList` counts its rounds. `Items` is the same loop without the count: one item, then either the
closing token, or a comma and, where that is allowed, the closing token, or a comma and further
items. `commaList_eq_ok_iff` says that the loop succeeds exactly as `Items` does, for any item
reader that advances.

`Token.listed` writes a comma list: stretches of tokens with single commas between them, and perhaps
one comma more. Whatever tokens the items take, what `Items` reads is such a list of stretches
(`Items.exists_parts`), it reads every such list (`items_listed`), and a list can be cut into its
stretches in one way only (`Token.listed_unique`).
-/

namespace MoveText

namespace TokenReader

variable {α : Type} {tokens rest : List Token}

/-! ### The loop without a count -/

section Items

variable (item : TokenReader α) (stop : Token) (trailing : Bool)

/-- One item at least, read one after the other with commas between them, and then the token `stop`,
before which one more comma may stand if `trailing` allows it. -/
inductive Items : List Token → List α → List Token → Prop
  | last {tokens rest : List Token} {a : α} (hitem : item tokens = (.ok a, stop :: rest)) :
      Items tokens [a] (stop :: rest)
  | lastComma {tokens rest : List Token} {a : α} (htrailing : trailing = true)
      (hitem : item tokens = (.ok a, .comma :: stop :: rest)) : Items tokens [a] (stop :: rest)
  | more {tokens mid rest : List Token} {a : α} {others : List α}
      (hitem : item tokens = (.ok a, .comma :: mid))
      (hopen : trailing = true → mid.head? ≠ some stop) (htail : Items mid others rest) :
      Items tokens (a :: others) rest

variable {item stop trailing}

/-- The loop succeeds only on items with commas between them. -/
private theorem items_of_itemsWithin {rounds : Nat} {found : List α}
    (h : itemsWithin item stop trailing rounds tokens = (.ok found, rest)) :
    Items item stop trailing tokens found rest := by
  induction rounds generalizing tokens found with
  | zero => exact (fail_eq_ok_iff.mp h).elim
  | succ rounds ih =>
    rw [itemsWithin, bind_eq_ok_iff] at h
    obtain ⟨a, mid, hitem, h⟩ := h
    rw [bind_eq_ok_iff] at h
    obtain ⟨ahead, _, hahead, h⟩ := h
    obtain ⟨rfl, rfl⟩ := nextIs_eq_ok_iff.mp hahead
    split_ifs at h with hstop
    · obtain ⟨rfl, rfl⟩ := pure_eq_ok_iff.mp h
      obtain ⟨tail, rfl⟩ := List.head?_eq_some_iff.mp (beq_iff_eq.mp hstop)
      exact .last hitem
    · rw [bind_eq_ok_iff] at h
      obtain ⟨_, mid, hcomma, h⟩ := h
      obtain rfl := expect_eq_ok_iff.mp hcomma
      rw [bind_eq_ok_iff] at h
      obtain ⟨closes, _, hcloses, h⟩ := h
      obtain ⟨rfl, rfl⟩ := nextIs_eq_ok_iff.mp hcloses
      split_ifs at h with hclose
      · obtain ⟨htrailing, hclose⟩ := Bool.and_eq_true_iff.mp hclose
        obtain ⟨rfl, rfl⟩ := pure_eq_ok_iff.mp h
        obtain ⟨tail, rfl⟩ := List.head?_eq_some_iff.mp (beq_iff_eq.mp hclose)
        exact .lastComma htrailing hitem
      · rw [bind_eq_ok_iff] at h
        obtain ⟨others, _, hothers, h⟩ := h
        obtain ⟨rfl, rfl⟩ := pure_eq_ok_iff.mp h
        exact .more hitem (fun htrailing => by simpa [htrailing] using hclose) (ih hothers)

/-- The loop succeeds on items with commas between them, if a round is left for each. -/
private theorem itemsWithin_of_items {rounds : Nat} {found : List α} (hstop : stop ≠ .comma)
    (h : Items item stop trailing tokens found rest) (hrounds : found.length ≤ rounds) :
    itemsWithin item stop trailing rounds tokens = (.ok found, rest) := by
  induction h generalizing rounds with
  | @last tokens rest a hitem =>
    obtain ⟨rounds, rfl⟩ : ∃ n, rounds = n + 1 := Nat.exists_eq_add_one.mpr hrounds
    rw [itemsWithin, bind_eq_ok_iff]
    refine ⟨a, stop :: rest, hitem, bind_eq_ok_iff.mpr ⟨true, stop :: rest, by simp, ?_⟩⟩
    simp
  | @lastComma tokens rest a htrailing hitem =>
    obtain ⟨rounds, rfl⟩ : ∃ n, rounds = n + 1 := Nat.exists_eq_add_one.mpr hrounds
    rw [itemsWithin, bind_eq_ok_iff]
    refine ⟨a, .comma :: stop :: rest, hitem, ?_⟩
    refine bind_eq_ok_iff.mpr ⟨false, .comma :: stop :: rest, ?_⟩
    refine ⟨by simpa using hstop.symm, bind_eq_ok_iff.mpr ⟨(), stop :: rest, by simp, ?_⟩⟩
    refine bind_eq_ok_iff.mpr ⟨true, stop :: rest, by simp, ?_⟩
    simp [htrailing]
  | @more tokens mid rest a others hitem hopen htail ih =>
    rw [List.length_cons] at hrounds
    obtain ⟨rounds, rfl⟩ : ∃ n, rounds = n + 1 := Nat.exists_eq_add_one.mpr (by omega)
    rw [itemsWithin, bind_eq_ok_iff]
    refine ⟨a, .comma :: mid, hitem, bind_eq_ok_iff.mpr ⟨false, .comma :: mid, ?_⟩⟩
    refine ⟨by simpa using hstop.symm, bind_eq_ok_iff.mpr ⟨(), mid, by simp, ?_⟩⟩
    refine bind_eq_ok_iff.mpr ⟨mid.head? == some stop, mid, by simp, ?_⟩
    -- what follows the comma is no closing token, so the loop goes on
    have hclose : ¬ (trailing && mid.head? == some stop) = true := by simpa using hopen
    rw [if_neg hclose, bind_eq_ok_iff]
    exact ⟨others, rest, ih (by omega), by simp⟩

/-- Each item but the last is followed by a comma of its own. -/
private theorem Items.length_le (hitem : Advances item) {found : List α}
    (h : Items item stop trailing tokens found rest) : found.length ≤ tokens.length := by
  have hle : ∀ {tokens mid : List Token} {a : α}, item tokens = (.ok a, mid) →
      mid.length ≤ tokens.length := fun {tokens mid a} ha => by
    have := (hitem tokens).length_le
    rwa [ha] at this
  induction h with
  | last hread => exact Nat.le_trans (by simp) (hle hread)
  | lastComma _ hread => exact Nat.le_trans (by simp) (hle hread)
  | more hread _ _ ih =>
    have := hle hread
    simp only [List.length_cons] at this ⊢
    omega

/-- **What a comma list accepts**: the closing token at once, or items with commas between them up
to it. The count of rounds never cuts a list short. -/
theorem commaList_eq_ok_iff (hitem : Advances item) (hstop : stop ≠ .comma) {found : List α} :
    commaList item stop trailing tokens = (.ok found, rest) ↔
      (tokens.head? = some stop ∧ found = [] ∧ rest = tokens) ∨
        (tokens.head? ≠ some stop ∧ Items item stop trailing tokens found rest) := by
  rw [commaList]
  split_ifs with hhead
  · simp [hhead, eq_comm]
  · simp only [hhead, false_and, ne_eq, not_false_eq_true, true_and, false_or]
    refine ⟨items_of_itemsWithin, fun h => itemsWithin_of_items hstop h ?_⟩
    exact Nat.le_succ_of_le (h.length_le hitem)

end Items

end TokenReader

/-! ### Lists of stretches -/

/-- Stretches with single commas between them, and one more comma at the end if there is an extra
one. -/
def Token.listed (stretches : List (List Token)) (extra : Bool) : List Token :=
  [Token.comma].intercalate stretches ++ if extra then [.comma] else []

theorem Token.listed_singleton (words : List Token) (extra : Bool) :
    listed [words] extra = words ++ if extra then [.comma] else [] := by
  simp [listed]

theorem Token.listed_cons {stretches : List (List Token)} (hne : stretches ≠ [])
    (words : List Token) (extra : Bool) :
    listed (words :: stretches) extra = words ++ .comma :: listed stretches extra := by
  simp [listed, List.intercalate_cons_of_ne_nil hne]

/-- The stretches stand in the list as they are. -/
theorem Token.isInfix_listed {words : List Token} {stretches : List (List Token)} {extra : Bool}
    (hwords : words ∈ stretches) : words <:+: listed stretches extra := by
  induction stretches with
  | nil => cases hwords
  | cons first stretches ih =>
    by_cases hnil : stretches = []
    · subst hnil
      rw [List.mem_singleton] at hwords
      rw [listed_singleton, ← hwords]
      exact (List.prefix_append ..).isInfix
    · rw [listed_cons hnil]
      rcases List.mem_cons.mp hwords with rfl | hwords
      · exact (List.prefix_append ..).isInfix
      · exact (ih hwords).trans ((List.suffix_cons ..).trans (List.suffix_append ..)).isInfix

/-- The tokens of a stretch are tokens of the list. -/
theorem Token.mem_listed {words : List Token} {stretches : List (List Token)} {extra : Bool}
    {t : Token} (hwords : words ∈ stretches) (ht : t ∈ words) : t ∈ listed stretches extra :=
  (isInfix_listed hwords).subset ht

/-- A list goes on behind its first stretch with a comma or with what closes it. -/
private theorem Token.exists_listed_append (words : List Token) (stretches : List (List Token))
    (extra : Bool) (stop : Token) (rest : List Token) :
    ∃ closing tail, listed (words :: stretches) extra ++ stop :: rest = words ++ closing :: tail ∧
      (closing = .comma ∨ closing = stop) := by
  by_cases hne : stretches = []
  · subst hne
    rw [listed_singleton]
    cases extra
    · exact ⟨stop, rest, by simp, .inr rfl⟩
    · exact ⟨.comma, stop :: rest, by simp, .inl rfl⟩
  · rw [listed_cons hne]
    exact ⟨.comma, listed stretches extra ++ stop :: rest, by simp, .inl rfl⟩

/-- A list starts as its first stretch does. -/
theorem Token.head?_listed_ne {stretches : List (List Token)} {extra : Bool} {stop : Token}
    (hne : stretches ≠ []) (hhead : ∀ words ∈ stretches, ∃ t tail, words = t :: tail ∧ t ≠ stop)
    (rest : List Token) : (listed stretches extra ++ rest).head? ≠ some stop := by
  obtain ⟨words, stretches, rfl⟩ := List.exists_cons_of_ne_nil hne
  obtain ⟨t, tail, rfl, ht⟩ := hhead words List.mem_cons_self
  by_cases hnil : stretches = []
  · simpa [hnil, listed_singleton] using ht
  · simpa [listed_cons hnil] using ht

/-- A list of one stretch is no list of more. -/
private theorem Token.listed_singleton_ne {words : List Token} {stretches : List (List Token)}
    {extra extra' : Bool} {stop : Token} {rest rest' : List Token} (hstop : stop ≠ .comma)
    (hne : stretches ≠ []) (hhead : ∀ words ∈ stretches, ∃ t tail, words = t :: tail ∧ t ≠ stop) :
    listed [words] extra ++ stop :: rest ≠ listed (words :: stretches) extra' ++ stop :: rest' := by
  rw [listed_singleton, listed_cons hne]
  cases extra
  · simp [hstop]
  · intro h
    have hrest : stop :: rest = listed stretches extra' ++ stop :: rest' := by simpa using h
    exact head?_listed_ne hne hhead (stop :: rest') (by rw [← hrest]; rfl)

/-- **A list can be cut into its stretches in one way only**, if two stretches that start at one
place and are followed by a comma or the closing token are the same. -/
theorem Token.listed_unique {α : Type} {stop : Token} (hstop : stop ≠ .comma)
    {parts parts' : List (List Token × α)} {extra extra' : Bool} {rest rest' : List Token}
    (hne : parts ≠ []) (hne' : parts' ≠ [])
    (hhead : ∀ p ∈ parts, ∃ t words, p.1 = t :: words ∧ t ≠ stop)
    (hhead' : ∀ p ∈ parts', ∃ t words, p.1 = t :: words ∧ t ≠ stop)
    (hsame : ∀ p ∈ parts, ∀ p' ∈ parts', ∀ closing closing' tail tail',
      closing = .comma ∨ closing = stop → closing' = .comma ∨ closing' = stop →
        p.1 ++ closing :: tail = p'.1 ++ closing' :: tail' → p = p')
    (h : listed (parts.map Prod.fst) extra ++ stop :: rest =
      listed (parts'.map Prod.fst) extra' ++ stop :: rest') :
    parts = parts' ∧ extra = extra' := by
  induction parts generalizing parts' with
  | nil => exact absurd rfl hne
  | cons p parts ih =>
    obtain ⟨p', parts', rfl⟩ := List.exists_cons_of_ne_nil hne'
    obtain ⟨hp, hps⟩ := List.forall_mem_cons.mp hhead
    obtain ⟨hp', hps'⟩ := List.forall_mem_cons.mp hhead'
    -- the first stretches start at one place, and each is followed by a comma or by what closes
    obtain rfl : p = p' := by
      obtain ⟨closing, tail, heq, hclosing⟩ :=
        exists_listed_append p.1 (parts.map Prod.fst) extra stop rest
      obtain ⟨closing', tail', heq', hclosing'⟩ :=
        exists_listed_append p'.1 (parts'.map Prod.fst) extra' stop rest'
      rw [List.map_cons, List.map_cons, heq, heq'] at h
      exact hsame p List.mem_cons_self p' List.mem_cons_self _ _ _ _ hclosing hclosing' h
    simp only [List.map_cons] at h
    by_cases hnil : parts = [] <;> by_cases hnil' : parts' = []
    · subst hnil hnil'
      simp only [List.map_nil, listed_singleton, List.append_assoc] at h
      have hclose := List.append_cancel_left h
      refine ⟨rfl, ?_⟩
      cases extra <;> cases extra'
      · rfl
      · exact absurd (List.cons.inj hclose).1 hstop
      · exact absurd (List.cons.inj hclose).1.symm hstop
      · rfl
    · subst hnil
      exact absurd h (listed_singleton_ne hstop (by simpa using hnil') (by simpa using hps'))
    · subst hnil'
      exact absurd h.symm (listed_singleton_ne hstop (by simpa using hnil) (by simpa using hps))
    · rw [listed_cons (by simpa using hnil), listed_cons (by simpa using hnil')] at h
      obtain ⟨rfl, rfl⟩ := ih hnil hnil' hps hps'
        (fun q hq q' hq' => hsame q (List.mem_cons_of_mem p hq) q' (List.mem_cons_of_mem p hq'))
        (by simpa using h)
      exact ⟨rfl, rfl⟩

namespace TokenReader

variable {α : Type} {item : TokenReader α} {stop : Token} {trailing : Bool}

/-- The items that are read were listed. `R` is what is known of the stretch that an item takes, on
tokens that all have the property `P`. -/
theorem Items.exists_parts {P : Token → Prop} {R : List Token → α → Prop}
    (hitem : ∀ tokens a rest, (∀ t ∈ tokens, P t) → item tokens = (.ok a, rest) →
      ∃ words, tokens = words ++ rest ∧ R words a)
    {tokens rest : List Token} {found : List α} (h : Items item stop trailing tokens found rest)
    (htokens : ∀ t ∈ tokens, P t) :
    ∃ (parts : List (List Token × α)) (extra : Bool), parts ≠ [] ∧ (∀ p ∈ parts, R p.1 p.2) ∧
      found = parts.map Prod.snd ∧ (extra = true → trailing = true) ∧
      tokens = Token.listed (parts.map Prod.fst) extra ++ rest ∧ rest.head? = some stop := by
  induction h with
  | @last tokens rest a hread =>
    obtain ⟨words, rfl, hR⟩ := hitem _ _ _ htokens hread
    exact ⟨[(words, a)], false, by simp [Token.listed_singleton, hR]⟩
  | @lastComma tokens rest a htrailing hread =>
    obtain ⟨words, rfl, hR⟩ := hitem _ _ _ htokens hread
    exact ⟨[(words, a)], true, by simp [Token.listed_singleton, hR, htrailing]⟩
  | @more tokens mid rest a others hread _ _ ih =>
    obtain ⟨words, rfl, hR⟩ := hitem _ _ _ htokens hread
    obtain ⟨parts, extra, hne, hparts, rfl, hextra, rfl, hrest⟩ := ih fun t ht =>
      htokens t (by simp [ht])
    refine ⟨(words, a) :: parts, extra, by simp, ?_, rfl, hextra, ?_, hrest⟩
    · rintro p (_ | ⟨_, hp⟩)
      · exact hR
      · exact hparts p hp
    · rw [List.map_cons, Token.listed_cons (by simpa using hne)]
      simp

/-- Every list of stretches that the item reader takes as they are is read. -/
theorem items_listed {parts : List (List Token × α)} {extra : Bool} {rest : List Token}
    (hne : parts ≠ []) (hextra : extra = true → trailing = true)
    (hhead : ∀ p ∈ parts, ∃ t words, p.1 = t :: words ∧ t ≠ stop)
    (hread : ∀ p ∈ parts, ∀ closing tail, closing = .comma ∨ closing = stop →
      item (p.1 ++ closing :: tail) = (.ok p.2, closing :: tail)) :
    Items item stop trailing (Token.listed (parts.map Prod.fst) extra ++ stop :: rest)
      (parts.map Prod.snd) (stop :: rest) := by
  induction parts with
  | nil => exact absurd rfl hne
  | cons p parts ih =>
    have hp := hread p List.mem_cons_self
    by_cases hnil : parts = []
    · subst hnil
      simp only [List.map_cons, List.map_nil, Token.listed_singleton]
      cases extra with
      | false =>
        refine .last ?_
        simpa using hp stop rest (.inr rfl)
      | true =>
        refine .lastComma (hextra rfl) ?_
        simpa using hp .comma (stop :: rest) (.inl rfl)
    · rw [List.map_cons, List.map_cons, Token.listed_cons (by simpa using hnil)]
      have htail := ih hnil (fun q hq => hhead q (List.mem_cons_of_mem p hq)) fun q hq =>
        hread q (List.mem_cons_of_mem p hq)
      refine .more ?_ (fun _ => ?_) htail
      · simpa using hp .comma _ (.inl rfl)
      · exact Token.head?_listed_ne (by simpa using hnil)
          (by simpa using fun q hq => hhead q (List.mem_cons_of_mem p hq)) _

end TokenReader

end MoveText
