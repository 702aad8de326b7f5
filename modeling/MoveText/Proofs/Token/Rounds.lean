import MoveText.Proofs.Token.CommaList

/-!
# Comma lists round by round

`TokenReader.Rounds` is the loop of a comma list as it goes, with every way in which it can end and
without a count of its rounds. On any tokens it comes to an end, since each round takes a comma, and
it ends as `commaList` says (`rounds_iff`).

Which lists are read is said by `TokenReader.ReadsList`: nothing, or stretches with single commas
between them, each of which is what the item reader takes where it stands, and perhaps one comma
more, up to the closing token. If no item starts with the closing token, these are the lists that
are accepted, and all others are turned down (`commaList_eq_ok_iff_readsList`).
-/

namespace MoveText.TokenReader

variable {α : Type} {item : TokenReader α} {stop : Token} {trailing : Bool}
  {tokens rest : List Token} {found : List α}

/-- What is found with one more item in front, or the same rejection. -/
def consOutcome (a : α) (outcome : Except Rejection (List α) × List Token) :
    Except Rejection (List α) × List Token :=
  (outcome.1.map (a :: ·), outcome.2)

/-! ### The rounds of the loop -/

section Rounds

variable (item stop trailing)

/-- The rounds of a comma list from some tokens on, and what comes of them. A round ends the loop
if its item is turned down, if the closing token follows the item, if no comma follows it, or if the
closing token follows the comma and such a comma is allowed. Else the next round begins behind the
comma. -/
inductive Rounds : List Token → Except Rejection (List α) × List Token → Prop
  | itemFails {tokens rest : List Token} {rejection : Rejection}
      (hitem : item tokens = (.error rejection, rest)) : Rounds tokens (.error rejection, rest)
  | closes {tokens rest : List Token} {a : α} (hitem : item tokens = (.ok a, rest))
      (hstop : rest.head? = some stop) : Rounds tokens (.ok [a], rest)
  | noComma {tokens mid rest : List Token} {a : α} {rejection : Rejection}
      (hitem : item tokens = (.ok a, mid)) (hopen : mid.head? ≠ some stop)
      (hcomma : expect .comma mid = (.error rejection, rest)) :
      Rounds tokens (.error rejection, rest)
  | closesBehindComma {tokens mid rest : List Token} {a : α} (hitem : item tokens = (.ok a, mid))
      (hopen : mid.head? ≠ some stop) (hcomma : expect .comma mid = (.ok (), rest))
      (htrailing : trailing = true) (hstop : rest.head? = some stop) : Rounds tokens (.ok [a], rest)
  | goesOn {tokens mid rest : List Token} {a : α} {outcome : Except Rejection (List α) × List Token}
      (hitem : item tokens = (.ok a, mid)) (hopen : mid.head? ≠ some stop)
      (hcomma : expect .comma mid = (.ok (), rest))
      (hnext : ¬ (trailing = true ∧ rest.head? = some stop)) (hrounds : Rounds rest outcome) :
      Rounds tokens (consOutcome a outcome)

end Rounds

variable {outcome : Except Rejection (List α) × List Token} {rounds : Nat}

/-- One round, and what the rounds behind it come to. -/
private theorem itemsWithin_succ_apply (rounds : Nat) (tokens : List Token) :
    itemsWithin item stop trailing (rounds + 1) tokens =
      match item tokens with
      | (.error rejection, rest) => (.error rejection, rest)
      | (.ok a, mid) =>
        if mid.head? = some stop then (.ok [a], mid)
        else
          match expect .comma mid with
          | (.error rejection, rest) => (.error rejection, rest)
          | (.ok (), rest) =>
            if trailing = true ∧ rest.head? = some stop then (.ok [a], rest)
            else consOutcome a (itemsWithin item stop trailing rounds rest) := by
  rw [itemsWithin]
  rcases hitem : item tokens with ⟨rejection | a, mid⟩
  · exact bind_of_error hitem
  rw [bind_of_ok hitem, bind_of_ok (nextIs_eq_ok_iff.mpr ⟨rfl, rfl⟩)]
  dsimp only
  by_cases hopen : mid.head? = some stop
  · rw [if_pos (beq_iff_eq.mpr hopen), if_pos hopen]
    rfl
  rw [if_neg (mt beq_iff_eq.mp hopen), if_neg hopen]
  rcases hcomma : expect .comma mid with ⟨rejection | ⟨⟩, rest⟩
  · exact bind_of_error hcomma
  rw [bind_of_ok hcomma, bind_of_ok (nextIs_eq_ok_iff.mpr ⟨rfl, rfl⟩)]
  simp only [Bool.and_eq_true, beq_iff_eq]
  split_ifs
  · rfl
  · rcases hothers : itemsWithin item stop trailing rounds rest with ⟨rejection | others, mid⟩
    · exact bind_of_error hothers
    · exact bind_of_ok hothers

/-- A round leaves fewer tokens behind its comma than it was given. -/
private theorem length_lt_of_round (hitem : Advances item) {mid : List Token} {a : α}
    (hread : item tokens = (.ok a, mid)) (hcomma : expect .comma mid = (.ok (), rest)) :
    rest.length < tokens.length := by
  have hle := (hitem tokens).length_le
  rw [hread] at hle
  obtain rfl := expect_eq_ok_iff.mp hcomma
  exact hle

/-- **The loop comes to an end** within as many rounds as there are tokens. -/
theorem rounds_itemsWithin (hitem : Advances item) (h : tokens.length < rounds) :
    Rounds item stop trailing tokens (itemsWithin item stop trailing rounds tokens) := by
  induction rounds generalizing tokens with
  | zero => exact absurd h (Nat.not_lt_zero _)
  | succ rounds ih =>
    rw [itemsWithin_succ_apply]
    rcases hread : item tokens with ⟨rejection | a, mid⟩
    · exact .itemFails hread
    dsimp only
    split_ifs with hopen
    · exact .closes hread hopen
    rcases hcomma : expect .comma mid with ⟨rejection | ⟨⟩, rest⟩
    · exact .noComma hread hopen hcomma
    dsimp only
    split_ifs with hnext
    · exact .closesBehindComma hread hopen hcomma hnext.1 hnext.2
    · have hlt := length_lt_of_round hitem hread hcomma
      exact .goesOn hread hopen hcomma hnext (ih (by omega))

/-- What the loop comes to is what the counted rounds come to. -/
private theorem Rounds.itemsWithin_eq (hitem : Advances item)
    (h : Rounds item stop trailing tokens outcome) (hrounds : tokens.length ≤ rounds) :
    itemsWithin item stop trailing (rounds + 1) tokens = outcome := by
  induction h generalizing rounds with
  | itemFails hread => rw [itemsWithin_succ_apply, hread]
  | closes hread hstop =>
    rw [itemsWithin_succ_apply, hread]
    exact if_pos hstop
  | noComma hread hopen hcomma =>
    rw [itemsWithin_succ_apply, hread]
    dsimp only
    rw [if_neg hopen, hcomma]
  | closesBehindComma hread hopen hcomma htrailing hstop =>
    rw [itemsWithin_succ_apply, hread]
    dsimp only
    rw [if_neg hopen, hcomma]
    exact if_pos ⟨htrailing, hstop⟩
  | goesOn hread hopen hcomma hnext _ ih =>
    have hlt := length_lt_of_round hitem hread hcomma
    have hpos := Nat.zero_lt_of_lt (Nat.lt_of_lt_of_le hlt hrounds)
    obtain ⟨rounds, rfl⟩ := Nat.exists_eq_add_one.mpr hpos
    rw [itemsWithin_succ_apply, hread]
    dsimp only
    rw [if_neg hopen, hcomma]
    exact (if_neg hnext).trans (congrArg _ (ih (by omega)))

section Runs

variable (item stop trailing)

/-- What the whole loop comes to: no items if the closing token stands there at once, else what its
rounds come to. -/
inductive ListRuns : List Token → Except Rejection (List α) × List Token → Prop
  | empty {tokens : List Token} (hstop : tokens.head? = some stop) :
      ListRuns tokens (.ok [], tokens)
  | rounds {tokens : List Token} {outcome : Except Rejection (List α) × List Token}
      (hopen : tokens.head? ≠ some stop) (hrounds : Rounds item stop trailing tokens outcome) :
      ListRuns tokens outcome

end Runs

/-- **A comma list comes to an end on all tokens**, and to no other than `commaList` gives. -/
theorem listRuns_iff (hitem : Advances item) :
    ListRuns item stop trailing tokens outcome ↔ commaList item stop trailing tokens = outcome := by
  rw [commaList]
  constructor
  · rintro (hstop | ⟨hopen, hrounds⟩)
    · exact if_pos hstop
    · exact (if_neg hopen).trans (hrounds.itemsWithin_eq hitem (Nat.le_refl _))
  · rintro rfl
    split_ifs with hstop
    · exact .empty hstop
    · exact .rounds hstop (rounds_itemsWithin hitem (Nat.lt_succ_self _))

/-! ### What the items take -/

section Consumes

variable (item)

/-- Each stretch is exactly what the item reader takes where it stands, with a comma behind it if
others follow, and gives the item that is found. -/
inductive Consumes (closing : List Token) : List (List Token) → List α → Prop
  | last {words : List Token} {a : α} (hitem : item (words ++ closing) = (.ok a, closing)) :
      Consumes closing [words] [a]
  | more {words : List Token} {stretches : List (List Token)} {a : α} {others : List α}
      (hitem : item (words ++ .comma :: ([.comma].intercalate stretches ++ closing)) =
        (.ok a, .comma :: ([.comma].intercalate stretches ++ closing)))
      (htail : Consumes closing stretches others) :
      Consumes closing (words :: stretches) (a :: others)

variable (stop trailing)

/-- **Tokens that are read as a list**: what is left starts with the closing token, and before it
there is nothing, or there are stretches that items take, with single commas between them, and
perhaps one comma more. -/
def ReadsList (tokens : List Token) (found : List α) (rest : List Token) : Prop :=
  rest.head? = some stop ∧
    (found = [] ∧ tokens = rest ∨
      ∃ stretches closing, (closing = rest ∨ trailing = true ∧ closing = .comma :: rest) ∧
        tokens = [.comma].intercalate stretches ++ closing ∧ Consumes item closing stretches found)

/-- No item starts with the token. -/
def Refuses (token : Token) : Prop := ∀ tail, ∃ rejection rest,
  item (token :: tail) = (.error rejection, rest)

end Consumes

private theorem Consumes.ne_nil {closing : List Token} {stretches : List (List Token)}
    (h : Consumes item closing stretches found) : stretches ≠ [] := by
  cases h <;> simp

/-- Items do not start where the closing token stands. -/
private theorem Refuses.head?_ne (h : Refuses item stop) {a : α} {mid : List Token}
    (hread : item tokens = (.ok a, mid)) : tokens.head? ≠ some stop := by
  intro hstop
  obtain ⟨tail, rfl⟩ := List.head?_eq_some_iff.mp hstop
  obtain ⟨rejection, rest, hfails⟩ := h tail
  rw [hread] at hfails
  cases hfails

private theorem Consumes.head?_ne (h : Refuses item stop) {closing : List Token}
    {stretches : List (List Token)} (hconsumes : Consumes item closing stretches found) :
    ([.comma].intercalate stretches ++ closing).head? ≠ some stop := by
  cases hconsumes with
  | last hitem =>
    rw [List.intercalate_singleton]
    exact h.head?_ne hitem
  | more hitem htail =>
    rw [List.intercalate_cons_of_ne_nil htail.ne_nil, List.append_assoc, List.append_assoc]
    exact h.head?_ne hitem

/-- The loop succeeds on stretches that items take. -/
private theorem Items.exists_consumes (hitem : Advances item)
    (h : Items item stop trailing tokens found rest) :
    rest.head? = some stop ∧ ∃ stretches closing,
      (closing = rest ∨ trailing = true ∧ closing = .comma :: rest) ∧
        tokens = [.comma].intercalate stretches ++ closing ∧
          Consumes item closing stretches found := by
  have htaken : ∀ {tokens mid : List Token} {a : α}, item tokens = (.ok a, mid) →
      ∃ words, words ++ mid = tokens := fun {tokens mid a} hread => by
    have hsuffix := hitem tokens
    rwa [hread] at hsuffix
  induction h with
  | last hread =>
    obtain ⟨words, rfl⟩ := htaken hread
    exact ⟨rfl, [words], _, .inl rfl, by simp, .last hread⟩
  | lastComma htrailing hread =>
    obtain ⟨words, rfl⟩ := htaken hread
    exact ⟨rfl, [words], _, .inr ⟨htrailing, rfl⟩, by simp, .last hread⟩
  | more hread _ _ ih =>
    obtain ⟨hstop, stretches, closing, hclosing, rfl, hconsumes⟩ := ih
    obtain ⟨words, rfl⟩ := htaken hread
    refine ⟨hstop, words :: stretches, closing, hclosing, ?_, .more hread hconsumes⟩
    rw [List.intercalate_cons_of_ne_nil hconsumes.ne_nil]
    simp

/-- The loop succeeds on all stretches that items take. -/
private theorem Consumes.items (h : Refuses item stop) (hstop : rest.head? = some stop)
    {closing : List Token} (hclosing : closing = rest ∨ trailing = true ∧ closing = .comma :: rest)
    {stretches : List (List Token)} (hconsumes : Consumes item closing stretches found) :
    Items item stop trailing ([.comma].intercalate stretches ++ closing) found rest := by
  obtain ⟨tail, rfl⟩ := List.head?_eq_some_iff.mp hstop
  induction hconsumes with
  | last hitem =>
    rw [List.intercalate_singleton]
    rcases hclosing with rfl | ⟨htrailing, rfl⟩
    · exact .last hitem
    · exact .lastComma htrailing hitem
  | more hitem htail ih =>
    rw [List.intercalate_cons_of_ne_nil htail.ne_nil, List.append_assoc, List.append_assoc]
    -- an item starts behind the comma, so the closing token does not stand there
    exact .more hitem (fun _ => htail.head?_ne h) ih

/-- **What a comma list accepts**, if no item starts with the closing token. -/
theorem commaList_eq_ok_iff_readsList (hitem : Advances item) (hstop : stop ≠ .comma)
    (hrefuses : Refuses item stop) :
    commaList item stop trailing tokens = (.ok found, rest) ↔
      ReadsList item stop trailing tokens found rest := by
  rw [commaList_eq_ok_iff hitem hstop]
  constructor
  · rintro (⟨hhead, rfl, rfl⟩ | ⟨-, hitems⟩)
    · exact ⟨hhead, .inl ⟨rfl, rfl⟩⟩
    · obtain ⟨hhead, hstretches⟩ := hitems.exists_consumes hitem
      exact ⟨hhead, .inr hstretches⟩
  · rintro ⟨hhead, ⟨rfl, rfl⟩ | ⟨stretches, closing, hclosing, rfl, hconsumes⟩⟩
    · exact .inl ⟨hhead, rfl, rfl⟩
    · exact .inr ⟨hconsumes.head?_ne hrefuses, hconsumes.items hrefuses hhead hclosing⟩

/-- What is not read as a list is turned down. -/
theorem exists_commaList_eq_error_iff (hitem : Advances item) (hstop : stop ≠ .comma)
    (hrefuses : Refuses item stop) :
    (∃ rejection rest, commaList item stop trailing tokens = (.error rejection, rest)) ↔
      ¬ ∃ found rest, ReadsList item stop trailing tokens found rest := by
  simp only [← commaList_eq_ok_iff_readsList hitem hstop hrefuses]
  rcases commaList item stop trailing tokens with ⟨rejection | found, rest⟩ <;> simp

end MoveText.TokenReader
