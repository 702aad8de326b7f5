import Mathlib.Data.List.Chain
import MoveText.Proofs.Token.Words

/-!
# Cuts put together and taken apart

Whether pieces are a cut of the text that they spell is settled by neighbours alone: no piece may be
prolonged by what the next one starts with (`Text.cut_iff`). So a cut of a text falls into cuts of
its parts, and cuts of two texts make one of both if their pieces keep apart where the texts meet
(`Text.cut_append_iff`). At a comma they always do, since nothing prolongs a comma and a comma
prolongs nothing: the words of a text fall apart at a comma exactly as the text does
(`Text.hasWords_append_comma_iff`). A text of a single word is its spelling with white space around
it (`Text.hasWords_singleton_iff`).
-/

namespace MoveText

/-! ### Marks -/

namespace TokenKind

/-- The marks. -/
def isMark : TokenKind → Bool
  | lt | gt | comma | colonColon => true
  | _ => false

/-- No spelling is prolonged by the character that a mark starts with. -/
private theorem continues_of_mark (kind : TokenKind) {c : Char} (hc : c ∈ ['<', '>', ',', ':']) :
    kind.continues c = false := by
  simp only [List.mem_cons, List.not_mem_nil, or_false] at hc
  rcases hc with rfl | rfl | rfl | rfl <;> cases kind <;> rfl

private theorem continues_of_isMark {kind : TokenKind} (hkind : kind.isMark) (c : Char) :
    kind.continues c = false := by
  cases kind <;> first | rfl | cases hkind

end TokenKind

/-- A mark starts with a character that prolongs nothing. -/
private theorem Token.Spells.startsIn_continues {token : Token} {word : Text}
    (h : token.Spells word) (hkind : token.kind.isMark) (kind : TokenKind) :
    Text.startsIn kind.continues word = false := by
  cases h with
  | lt | gt | comma | colonColon => exact kind.continues_of_mark (by decide)
  | _ => cases hkind

namespace Text

variable {s : Text} {pieces before after : List (Token × Text)} {words others : List Token}

/-! ### Neighbours -/

/-- The piece is not prolonged by what the next one starts with. -/
def KeepsOff (piece next : Token × Text) : Prop :=
  startsIn piece.1.kind.continues next.2 = false

/-- A mark keeps off from what stands before it and behind it. -/
theorem keepsOff_of_isMark {piece next : Token × Text} (hnext : next.1.Spells next.2)
    (hmark : piece.1.kind.isMark ∨ next.1.kind.isMark) : KeepsOff piece next := by
  rcases hmark with hmark | hmark
  · exact startsIn_eq_false_of_imp (q := fun _ => false)
      (fun c hc => by simp [TokenKind.continues_of_isMark hmark] at hc) (startsIn_empty _)
  · exact hnext.startsIn_continues hmark _

/-- **A cut told from its pieces**: they spell their tokens, and none is prolonged by the next. -/
theorem cut_iff : Cut s pieces ↔ (pieces.map Prod.snd).flatten = s ∧
    (∀ piece ∈ pieces, piece.1.Spells piece.2) ∧ pieces.IsChain KeepsOff := by
  constructor
  · intro h
    refine ⟨h.flatten_eq, fun _ => h.spells_of_mem, ?_⟩
    induction h with
    | nil => exact .nil
    | @cons s lexeme pieces front tail ih =>
      refine List.isChain_cons.mpr ⟨fun next hnext => ?_, ih⟩
      obtain ⟨pieces, rfl⟩ := List.head?_eq_some_iff.mp hnext
      have hmaximal := front.maximal
      rwa [← tail.flatten_eq, List.map_cons, List.flatten_cons,
        startsIn_append (tail.spells_of_mem List.mem_cons_self).ne_nil] at hmaximal
  · rintro ⟨rfl, hspells, hchain⟩
    induction pieces with
    | nil => exact .nil
    | cons piece pieces ih =>
      obtain ⟨hpiece, hpieces⟩ := List.forall_mem_cons.mp hspells
      obtain ⟨hnext, htail⟩ := List.isChain_cons.mp hchain
      have front : Lexeme.StartsText ⟨piece.1, piece.2, (pieces.map Prod.snd).flatten⟩
          ((piece :: pieces).map Prod.snd).flatten := by
        refine ⟨rfl, hpiece, ?_⟩
        cases pieces with
        | nil => rfl
        | cons next pieces =>
          rw [List.map_cons, List.flatten_cons,
            startsIn_append (hpieces next List.mem_cons_self).ne_nil]
          exact hnext next rfl
      exact .cons front (ih hpieces htail)

/-- **A cut falls into cuts of the parts**, which make one again if they keep apart. -/
theorem cut_append_iff : Cut s (before ++ after) ↔
    ∃ front back, s = front ++ back ∧ Cut front before ∧ Cut back after ∧
      ∀ piece ∈ before.getLast?, ∀ next ∈ after.head?, KeepsOff piece next := by
  simp only [cut_iff, List.map_append, List.flatten_append, List.forall_mem_append,
    List.isChain_append]
  constructor
  · rintro ⟨rfl, ⟨hbefore, hafter⟩, hchain, hchain', hmeet⟩
    exact ⟨_, _, rfl, ⟨rfl, hbefore, hchain⟩, ⟨rfl, hafter, hchain'⟩, hmeet⟩
  · rintro ⟨_, _, rfl, ⟨rfl, hbefore, hchain⟩, ⟨rfl, hafter, hchain'⟩, hmeet⟩
    exact ⟨rfl, ⟨hbefore, hafter⟩, hchain, hchain', hmeet⟩

/-! ### Words -/

/-- The words of a text are the tokens in its cut that are no white space. -/
private theorem hasWords_iff_exists_cut : HasWords s words ↔ ∃ pieces, Cut s pieces ∧
    (pieces.map Prod.fst).filter (fun t => !t.isWhitespace) = words := by
  rw [HasWords, Token.ofText_eq]
  simp only [Token.ofTextFrom_eq_ok_iff]
  constructor
  · rintro ⟨_, ⟨pieces, hcut, rfl⟩, hwords⟩
    exact ⟨pieces, hcut, hwords⟩
  · rintro ⟨pieces, hcut, hwords⟩
    exact ⟨_, ⟨pieces, hcut, rfl⟩, hwords⟩

theorem Cut.hasWords (h : Cut s pieces) :
    HasWords s ((pieces.map Prod.fst).filter fun t => !t.isWhitespace) :=
  hasWords_iff_exists_cut.mpr ⟨pieces, h, rfl⟩

/-- A text has no words exactly if it is white space. -/
theorem hasWords_nil_iff : HasWords s [] ↔ ∀ c ∈ s, isBlank c := by
  constructor
  · intro h
    obtain ⟨pieces, hcut, hwords⟩ := hasWords_iff_exists_cut.mp h
    rw [← hcut.flatten_eq]
    intro c hc
    obtain ⟨word, hword, hc⟩ := List.mem_flatten.mp hc
    obtain ⟨piece, hpiece, rfl⟩ := List.mem_map.mp hword
    refine (hcut.spells_of_mem hpiece).isBlank_of_isWhitespace ?_ c hc
    simpa using List.filter_eq_nil_iff.mp hwords piece.1 (List.mem_map_of_mem hpiece)
  · exact fun h => (gives_blanks h).hasWords_iff.mpr ⟨trivial, rfl⟩

/-- White space prolongs nothing but white space. -/
theorem continues_of_isBlank {kind : TokenKind} (hkind : kind ≠ .whitespace) {c : Char}
    (hc : isBlank c) : kind.continues c = false := by
  rcases isBlank_iff.mp hc with rfl | rfl | rfl | rfl | rfl <;>
    cases kind <;> first | rfl | exact absurd rfl hkind

/-- **A text of one word** is a spelling of it, with any white space around it. -/
theorem hasWords_singleton_iff {t : Token} (ht : t.isWhitespace = false) :
    HasWords s [t] ↔ ∃ before word after, s = before ++ (word ++ after) ∧
      (∀ c ∈ before, isBlank c) ∧ t.Spells word ∧ ∀ c ∈ after, isBlank c := by
  constructor
  · intro h
    obtain ⟨pieces, hcut, hwords⟩ := hasWords_iff_exists_cut.mp h
    obtain ⟨blanks, rest, hpieces, hblanks, -, hrest⟩ := List.filter_eq_cons_iff.mp hwords
    obtain ⟨front, back, rfl, rfl, hback⟩ := List.map_eq_append_iff.mp hpieces
    obtain ⟨⟨token, word⟩, back, rfl, rfl, rfl⟩ := List.map_eq_cons_iff.mp hback
    obtain ⟨before, tail, rfl, hbefore, htail, -⟩ := cut_append_iff.mp hcut
    have htail : Cut tail ([(token, word)] ++ back) := htail
    obtain ⟨middle, after, rfl, hmiddle, hafter, -⟩ := cut_append_iff.mp htail
    have hword : middle = word := by simpa using hmiddle.flatten_eq.symm
    subst hword
    refine ⟨before, middle, after, rfl, ?_, hmiddle.spells_of_mem List.mem_cons_self, ?_⟩
    · exact hasWords_nil_iff.mp (List.filter_eq_nil_iff.mpr hblanks ▸ hbefore.hasWords)
    · exact hasWords_nil_iff.mp (hrest ▸ hafter.hasWords)
  · rintro ⟨before, word, after, rfl, hbefore, hspells, hafter⟩
    -- neither what prolongs the word nor a quote may follow it, and white space is neither
    have hkind : t.kind ≠ .whitespace := by simpa [Token.isWhitespace] using ht
    have hfollow : startsIn (fun c => t.kind.continues c || c == '"') after = false := by
      cases after with
      | nil => rfl
      | cons c after =>
        have hc := hafter c List.mem_cons_self
        refine Bool.or_eq_false_iff.mpr ⟨continues_of_isBlank hkind hc, ?_⟩
        rcases isBlank_iff.mp hc with rfl | rfl | rfl | rfl | rfl <;> rfl
    have hword : Gives word (fun c => t.kind.continues c || c == '"') True [t] :=
      gives_of_spells hspells ht (fun _ hc => Bool.or_eq_true_iff.mpr (.inl hc)) fun _ =>
        Bool.or_eq_true_iff.mpr (.inr rfl)
    have hstart : startsIn isBlank (word ++ after) = false := by
      rw [startsIn_append hspells.ne_nil]
      exact hspells.startsIn_isBlank ht
    refine (gives_blanks hbefore _ hstart _).mpr ⟨trivial, [t], ?_, rfl⟩
    exact (hword after hfollow _).mpr ⟨trivial, [], hasWords_nil_iff.mpr hafter, rfl⟩

/-- Cuts on both sides of a comma make one cut. -/
private theorem Cut.append_comma {front back : Text} (h : Cut front before) (h' : Cut back after) :
    Cut (front ++ ',' :: back) (before ++ (.comma, [',']) :: after) := by
  have hfront : Lexeme.StartsText ⟨.comma, [','], back⟩ (',' :: back) :=
    ⟨rfl, .comma, startsIn_empty _⟩
  have hcomma : Cut (',' :: back) ((.comma, [',']) :: after) := .cons hfront h'
  refine cut_append_iff.mpr ⟨_, _, rfl, h, hcomma, fun piece _ next hnext => ?_⟩
  cases hnext
  exact keepsOff_of_isMark .comma (.inr rfl)

/-- **The words of a text fall apart at a comma exactly as the text does.** -/
theorem hasWords_append_comma_iff : HasWords s (words ++ .comma :: others) ↔
    ∃ front back, s = front ++ ',' :: back ∧ HasWords front words ∧ HasWords back others := by
  simp only [hasWords_iff_exists_cut]
  constructor
  · rintro ⟨pieces, hcut, hwords⟩
    obtain ⟨tokens, tokens', htokens, hbefore, hafter⟩ := List.filter_eq_append_iff.mp hwords
    obtain ⟨before, rest, rfl, rfl, hrest⟩ := List.map_eq_append_iff.mp htokens
    -- the comma is the first word of what is left, so only white space stands before it
    obtain ⟨blanks, tail, htail, hblanks, -, hothers⟩ := List.filter_eq_cons_iff.mp hafter
    obtain ⟨between, rest, rfl, rfl, hrest⟩ := List.map_eq_append_iff.mp (hrest.trans htail)
    obtain ⟨⟨token, word⟩, after, rfl, rfl, rfl⟩ := List.map_eq_cons_iff.mp hrest
    rw [← List.append_assoc] at hcut
    obtain ⟨front, tail, rfl, hfront, htail, -⟩ := cut_append_iff.mp hcut
    have htail : Cut tail ([(Token.comma, word)] ++ after) := htail
    obtain ⟨comma, back, rfl, hcomma, hback, -⟩ := cut_append_iff.mp htail
    obtain rfl : comma = [','] := by
      have hspells := hcomma.spells_of_mem List.mem_cons_self
      have hflatten := hcomma.flatten_eq
      cases hspells
      exact hflatten.symm
    refine ⟨front, back, rfl, ⟨_, hfront, ?_⟩, ⟨after, hback, hothers⟩⟩
    rw [List.map_append, List.filter_append, hbefore, List.filter_eq_nil_iff.mpr hblanks,
      List.append_nil]
  · rintro ⟨front, back, rfl, ⟨before, hfront, rfl⟩, after, hback, rfl⟩
    exact ⟨_, hfront.append_comma hback, by simp [Token.isWhitespace, Token.comma]⟩

end Text

end MoveText
