import MoveText.Proofs.Argument.Reading
import MoveText.Proofs.TypeTag.TokenLevels
import MoveText.Walk

/-!
# Comma lists on walks

On a walk the tokens are any tokens, made by hand or cut from a text, and a tag may start at any
depth. Names, tags and arguments never start with `>` or the end of the input, so a comma list of
any of them comes to an end on all tokens, and is read exactly where items stand with single commas
between them up to its closing token (`commaList_exact`).
-/

namespace MoveText.Walk

open TokenReader

variable {stop : Token} {tokens : List Token}

/-! ### Levels that are counted -/

/-- A count of levels that is stopped earlier is the same, or it was full. -/
private theorem levelsWithin_eq_or (limit depth : Int) {most most' : Nat} (h : most ≤ most') :
    levelsWithin limit most depth = levelsWithin limit most' depth ∨
      levelsWithin limit most depth = most ∧ most ≤ levelsWithin limit most' depth := by
  induction most generalizing depth most' with
  | zero => exact .inr ⟨rfl, Nat.zero_le _⟩
  | succ most ih =>
    obtain ⟨most', rfl⟩ := Nat.exists_eq_add_one.mpr (Nat.zero_lt_of_lt h)
    rw [levelsWithin, levelsWithin]
    split_ifs
    · exact .inl rfl
    · rcases ih (deeper depth) (Nat.le_of_succ_le_succ h) with hsame | ⟨hfull, hle⟩
      · exact .inl (congrArg (· + 1) hsame)
      · exact .inr ⟨congrArg (· + 1) hfull, Nat.succ_le_succ hle⟩

/-- **The count of levels never cuts a tag short**: counting further would make no difference. -/
theorem readAbove_levelsWithin {depth limit : Int} (hlimit : depth < limit) {most : Nat}
    (hmost : tokens.length < most) :
    TypeTag.readAbove limit (levelsWithin limit most depth) tokens =
      readTypeTag depth limit tokens := by
  rw [readTypeTag, if_neg (Int.not_le.mpr hlimit)]
  rcases levelsWithin_eq_or limit depth (Nat.succ_le_of_lt hmost) with hsame | ⟨hfull, hle⟩
  · rw [hsame]
  · rw [hfull]
    exact TypeTag.readAbove_eq_of_lt limit hle (Nat.lt_succ_self _)

/-! ### Items on walks -/

theorem advances_readTypeTag (depth limit : Int) : Advances (readTypeTag depth limit) := by
  intro tokens
  rw [readTypeTag]
  split_ifs with hlimit
  · rw [TypeTag.read, if_pos hlimit]
    exact advances_fail _ tokens
  · exact TypeTag.advances_readAbove _ _ tokens

theorem Item.advances_read (sort : Item) : Advances sort.read := by
  cases sort with
  | string =>
    refine Advances.bind (advances_next.bind fun token => ?_) fun _ => advances_pure _
    split_ifs
    · exact advances_pure _
    · exact advances_fail _
  | typeTag depth limit => exact (advances_readTypeTag depth limit).bind fun _ => advances_pure _
  | argument => exact Argument.advances_read.bind fun _ => advances_pure _

/-- No tag starts with a closing token. -/
private theorem refuses_readTypeTag (hstop : stop = .gt ∨ stop = .eof) (depth limit : Int) :
    Refuses (readTypeTag depth limit) stop := by
  intro tail
  rw [readTypeTag]
  split_ifs with hlimit
  · rw [TypeTag.read, if_pos hlimit]
    exact ⟨_, _, rfl⟩
  · cases levelsWithin limit ((stop :: tail).length + 1) depth with
    | zero => exact ⟨_, _, rfl⟩
    | succ levels => rcases hstop with rfl | rfl <;> exact ⟨_, _, rfl⟩

/-- **No item starts with a closing token.** -/
theorem Item.refuses_read (hstop : stop = .gt ∨ stop = .eof) (sort : Item) :
    Refuses sort.read stop := by
  intro tail
  cases sort with
  | typeTag depth limit =>
    obtain ⟨rejection, rest, hfails⟩ := refuses_readTypeTag hstop depth limit tail
    exact ⟨rejection, rest, bind_of_error hfails⟩
  | string => rcases hstop with rfl | rfl <;> exact ⟨_, _, rfl⟩
  | argument => rcases hstop with rfl | rfl <;> exact ⟨_, _, rfl⟩

/-! ### Lists of items -/

/-- **Comma lists are exact and come to an end**, for items of each sort, on any tokens and up to
either closing token. The loop has one outcome, to which `commaList` comes; this is a list of items
exactly where stretches stand that the items take, with single commas between them, and a rejection
everywhere else. The levels of tags that are counted are as good as any greater number. -/
theorem commaList_exact (sort : Item) (hstop : stop = .gt ∨ stop = .eof) (trailing : Bool)
    (tokens : List Token) :
    (∀ outcome, ListRuns sort.read stop trailing tokens outcome ↔
      commaList sort.read stop trailing tokens = outcome) ∧
    (∀ found rest, commaList sort.read stop trailing tokens = (.ok found, rest) ↔
      ReadsList sort.read stop trailing tokens found rest) ∧
    ((∃ rejection rest, commaList sort.read stop trailing tokens = (.error rejection, rest)) ↔
      ¬ ∃ found rest, ReadsList sort.read stop trailing tokens found rest) ∧
    ∀ depth limit most, depth < limit → tokens.length < most →
      TypeTag.readAbove limit (levelsWithin limit most depth) tokens =
        readTypeTag depth limit tokens := by
  have hcomma : stop ≠ .comma := by rcases hstop with rfl | rfl <;> decide
  have hadvances := sort.advances_read
  have hrefuses := sort.refuses_read hstop
  exact ⟨fun _ => listRuns_iff hadvances,
    fun _ _ => commaList_eq_ok_iff_readsList hadvances hcomma hrefuses,
    exists_commaList_eq_error_iff hadvances hcomma hrefuses,
    fun _ _ _ hlimit hmost => readAbove_levelsWithin hlimit hmost⟩

/-- Two tags are read up to the bracket, over the comma that stands before it. -/
theorem commaList_exact_vector :
    (Token.gt = .gt ∨ Token.gt = .eof) ∧
      commaList (Item.typeTag 0 13).read .gt true
        [⟨.keyword .vector, none⟩, .lt, ⟨.keyword (.primitive .u8), none⟩, .gt, .comma,
          ⟨.keyword (.primitive .bool), none⟩, .comma, .gt, ⟨.name, none⟩] =
        (.ok [.typeTag (.vector (.primitive .u8)), .typeTag (.primitive .bool)],
          [.gt, ⟨.name, none⟩]) := by
  obtain ⟨-, hread, -⟩ := commaList_exact (.typeTag 0 13) (.inl rfl) true
    [⟨.keyword .vector, none⟩, .lt, ⟨.keyword (.primitive .u8), none⟩, .gt, .comma,
      ⟨.keyword (.primitive .bool), none⟩, .comma, .gt, ⟨.name, none⟩]
  refine ⟨.inl rfl, (hread _ _).mpr ⟨rfl, .inr ?_⟩⟩
  exact ⟨[[⟨.keyword .vector, none⟩, .lt, ⟨.keyword (.primitive .u8), none⟩, .gt],
    [⟨.keyword (.primitive .bool), none⟩]], [.comma, .gt, ⟨.name, none⟩], .inr ⟨rfl, rfl⟩, rfl,
    .more rfl (.last rfl)⟩

end MoveText.Walk
