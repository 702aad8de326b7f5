import MoveText.Proofs.Address.Literal
import MoveText.Proofs.Token.CommaList
import MoveText.Proofs.Token.Pieces

/-!
# Texts without their white space

Taking the white space out of a text may change its tokens: `u 8` is a name and a number, but `u8`
is a keyword. It does not where of two neighbouring tokens one is always a mark, since nothing
prolongs a mark and a mark prolongs nothing. `Token.IsSpaced` says this of a list of tokens, all of
which are of the kinds that tags are written with. The cut of a text with such tokens is, without
its white space, the same but for the pieces of white space (`Text.Cut.withoutBlanks`).

The tokens nearly tell the pieces as well. `Token.plainSpelling` is one way to spell a token, and
only an address can be spelled in another (`Token.Spells.eq_or_address`).
-/

namespace MoveText

namespace TokenKind

/-- The kinds of tokens that a tag is written with. -/
def standsInTags : TokenKind → Bool
  | keyword _ | name | address => true
  | kind => kind.isMark

end TokenKind

namespace Token

/-- How the token is spelled, an address with the small marker. -/
def plainSpelling (t : Token) : Text :=
  match t.kind with
  | .keyword k => k.spelling
  | .lt => ['<']
  | .gt => ['>']
  | .comma => [',']
  | .colonColon => [':', ':']
  | _ => t.text

@[simp] theorem plainSpelling_keyword (k : Keyword) :
    plainSpelling ⟨.keyword k, none⟩ = k.spelling := rfl
@[simp] theorem plainSpelling_lt : lt.plainSpelling = ['<'] := rfl
@[simp] theorem plainSpelling_gt : gt.plainSpelling = ['>'] := rfl
@[simp] theorem plainSpelling_comma : comma.plainSpelling = [','] := rfl
@[simp] theorem plainSpelling_colonColon : colonColon.plainSpelling = [':', ':'] := rfl
@[simp] theorem plainSpelling_address (s : Text) : plainSpelling ⟨.address, some s⟩ = s := rfl

@[simp]
theorem plainSpelling_ofWord (word : Text) : (ofWord word).plainSpelling = word := by
  rw [ofWord]
  split
  · next k hk => exact Keyword.ofSpelling?_eq_some_iff.mp hk
  · rfl

namespace Spells

variable {token : Token} {word : Text}

/-- Of the tokens that a tag is written with only an address has another spelling, that with the
capital marker. -/
theorem eq_or_address (h : token.Spells word) (hkind : token.kind.standsInTags) :
    word = token.plainSpelling ∨ token.kind = .address ∧
      ∃ digits, word = '0' :: 'X' :: digits ∧ token.plainSpelling = '0' :: 'x' :: digits := by
  cases h with
  | @address marker digits hmarker =>
    rcases hmarker with rfl | rfl
    · exact .inl rfl
    · exact .inr ⟨rfl, digits, rfl, rfl⟩
  | number | sizedNumber | asciiBytes | hexBytes | blanks => cases hkind
  | _ => exact .inl rfl

/-- An address is spelled short exactly if it is spelled plainly and short itself. -/
theorem isShort_iff (h : token.Spells word) (hkind : token.kind = .address) :
    Address.IsShort word ↔ word = token.plainSpelling ∧ Address.IsShort token.text := by
  have hplain : token.plainSpelling = token.text := by rw [plainSpelling, hkind]
  constructor
  · intro hshort
    rcases h.eq_or_address (by rw [hkind]; rfl) with rfl | ⟨-, digits, rfl, -⟩
    · exact ⟨rfl, hplain ▸ hshort⟩
    · obtain ⟨_, ⟨⟩, -⟩ := hshort
  · rintro ⟨rfl, hshort⟩
    rwa [hplain]

/-- What is spelled somehow can be spelled plainly. -/
private theorem plain (h : token.Spells word) (hkind : token.kind.standsInTags) :
    token.Spells token.plainSpelling := by
  cases h with
  | address _ hne hdigits => exact .address (.inl rfl) hne hdigits
  | number | sizedNumber | asciiBytes | hexBytes | blanks => cases hkind
  | lt => exact .lt
  | gt => exact .gt
  | comma => exact .comma
  | colonColon => exact .colonColon
  | keyword k => exact .keyword k
  | name hc hrest hk => exact .name hc hrest hk

/-- No token of a tag is spelled with white space. -/
private theorem isBlank_of_standsInTags (h : token.Spells word) (hkind : token.kind.standsInTags) :
    ∀ c ∈ word, Text.isBlank c = false := by
  refine h.isBlank_eq_false (fun hwhite => ?_) fun hbytes => ?_
  · rw [hwhite] at hkind
    cases hkind
  · rw [hbytes] at hkind
    cases hkind

end Spells

/-! ### Spaced tokens -/

/-- **Tokens that need no white space between them**: they are of the kinds that tags are written
with, and of two neighbours one is a mark. -/
structure IsSpaced (words : List Token) : Prop where
  standsInTags : ∀ t ∈ words, t.kind.standsInTags
  isChain : words.IsChain fun t next => t.kind.isMark ∨ next.kind.isMark

theorem isSpaced_nil : IsSpaced [] := ⟨by simp, .nil⟩

theorem isSpaced_singleton {t : Token} (ht : t.kind.standsInTags) : IsSpaced [t] :=
  ⟨by simpa using ht, .singleton t⟩

/-- Spaced tokens may stand on both sides of a mark. -/
theorem IsSpaced.append_cons {words others : List Token} {mark : Token} (hwords : IsSpaced words)
    (hmark : mark.kind.isMark) (hothers : IsSpaced others) :
    IsSpaced (words ++ mark :: others) := by
  refine ⟨?_, List.isChain_append.mpr ⟨hwords.isChain, List.isChain_cons.mpr ⟨?_, hothers.isChain⟩,
    ?_⟩⟩
  · have htags : mark.kind.standsInTags := by
      generalize mark.kind = kind at hmark ⊢
      cases kind <;> first | rfl | cases hmark
    exact List.forall_mem_append.mpr
      ⟨hwords.standsInTags, List.forall_mem_cons.mpr ⟨htags, hothers.standsInTags⟩⟩
  · exact fun _ _ => .inl hmark
  · rintro t - _ ⟨⟩
    exact .inr hmark

theorem IsSpaced.cons_cons {words : List Token} {t mark : Token} (ht : t.kind.standsInTags)
    (hmark : mark.kind.isMark) (hwords : IsSpaced words) : IsSpaced (t :: mark :: words) :=
  (isSpaced_singleton ht).append_cons hmark hwords

theorem IsSpaced.listed {stretches : List (List Token)} (extra : Bool)
    (hstretches : ∀ words ∈ stretches, IsSpaced words) :
    IsSpaced (Token.listed stretches extra) := by
  induction stretches with
  | nil =>
    cases extra
    · exact isSpaced_nil
    · exact isSpaced_singleton rfl
  | cons words stretches ih =>
    obtain ⟨hwords, hothers⟩ := List.forall_mem_cons.mp hstretches
    by_cases hnil : stretches = []
    · subst hnil
      rw [listed_singleton]
      cases extra
      · simpa using hwords
      · exact hwords.append_cons rfl isSpaced_nil
    · rw [listed_cons hnil]
      exact hwords.append_cons rfl (ih hothers)

end Token

/-! ### Cutting without white space -/

namespace Text

/-- The text without its white space. -/
def withoutBlanks (s : Text) : Text := s.filter fun c => !isBlank c

/-- The pieces that are no white space. -/
def solidPieces (pieces : List (Token × Text)) : List (Token × Text) :=
  pieces.filter fun piece => !piece.1.isWhitespace

variable {s : Text} {pieces : List (Token × Text)}

theorem withoutBlanks_append (s t : Text) :
    withoutBlanks (s ++ t) = withoutBlanks s ++ withoutBlanks t := List.filter_append ..

theorem withoutBlanks_eq_self (hs : ∀ c ∈ s, isBlank c = false) : withoutBlanks s = s :=
  List.filter_eq_self.mpr fun c hc => by rw [hs c hc]; rfl

theorem withoutBlanks_eq_nil (hs : ∀ c ∈ s, isBlank c) : withoutBlanks s = [] :=
  List.filter_eq_nil_iff.mpr fun c hc => by rw [hs c hc]; decide

/-- **Spaced tokens are cut apart**, however they are spelled. -/
theorem cut_of_isSpaced (hspells : ∀ piece ∈ pieces, piece.1.Spells piece.2)
    (hspaced : Token.IsSpaced (pieces.map Prod.fst)) :
    Cut (pieces.map Prod.snd).flatten pieces := by
  refine cut_iff.mpr ⟨rfl, hspells, ?_⟩
  exact ((List.isChain_map Prod.fst).mp hspaced.isChain).imp_of_mem_imp fun piece next _ hnext =>
    keepsOff_of_isMark (hspells next hnext)

/-- Tokens with their plain spellings. -/
def plainPieces (words : List Token) : List (Token × Text) :=
  words.map fun t => (t, t.plainSpelling)

theorem eq_plainPieces_iff {words : List Token} :
    pieces = plainPieces words ↔
      pieces.map Prod.fst = words ∧ ∀ piece ∈ pieces, piece.2 = piece.1.plainSpelling := by
  constructor
  · rintro rfl
    exact ⟨(List.map_map ..).trans (List.map_id words), by simp [plainPieces]⟩
  · rintro ⟨rfl, hplain⟩
    rw [plainPieces, List.map_map]
    refine (List.map_id pieces).symm.trans (List.map_congr_left fun piece hpiece => ?_)
    exact Prod.ext rfl (hplain piece hpiece)

/-- The plain spelling of spaced tokens is cut into these tokens. -/
theorem cut_plainPieces {words : List Token} (hspells : ∀ t ∈ words, ∃ word, t.Spells word)
    (hspaced : Token.IsSpaced words) :
    Cut (words.flatMap Token.plainSpelling) (plainPieces words) := by
  obtain ⟨hwords, -⟩ := eq_plainPieces_iff.mp (rfl : plainPieces words = plainPieces words)
  have htext : words.flatMap Token.plainSpelling =
      ((plainPieces words).map Prod.snd).flatten := by
    rw [plainPieces, List.map_map]
    rfl
  rw [htext]
  refine cut_of_isSpaced (List.forall_mem_map.mpr fun t ht => ?_) (hwords.symm ▸ hspaced)
  obtain ⟨word, hword⟩ := hspells t ht
  exact hword.plain (hspaced.standsInTags t ht)

/-- The pieces of white space are what is taken out of a text, if no other holds any. -/
private theorem withoutBlanks_flatten (hspells : ∀ piece ∈ pieces, piece.1.Spells piece.2)
    (hsolid : ∀ piece ∈ solidPieces pieces, piece.1.kind.standsInTags) :
    withoutBlanks (pieces.map Prod.snd).flatten = ((solidPieces pieces).map Prod.snd).flatten := by
  induction pieces with
  | nil => rfl
  | cons piece pieces ih =>
    obtain ⟨hpiece, hpieces⟩ := List.forall_mem_cons.mp hspells
    rw [List.map_cons, List.flatten_cons, withoutBlanks_append]
    cases hwhite : piece.1.isWhitespace with
    | true =>
      have hskip : solidPieces (piece :: pieces) = solidPieces pieces := by
        simp [solidPieces, hwhite]
      rw [hskip] at hsolid ⊢
      rw [withoutBlanks_eq_nil (hpiece.isBlank_of_isWhitespace hwhite), List.nil_append,
        ih hpieces hsolid]
    | false =>
      have hkeep : solidPieces (piece :: pieces) = piece :: solidPieces pieces := by
        simp [solidPieces, hwhite]
      rw [hkeep] at hsolid ⊢
      obtain ⟨hkind, hsolid⟩ := List.forall_mem_cons.mp hsolid
      rw [withoutBlanks_eq_self (hpiece.isBlank_of_standsInTags hkind), ih hpieces hsolid,
        List.map_cons, List.flatten_cons]

/-- **The cut of a text without its white space** has the pieces of the text but for white space, if
their tokens are spaced: none of them is glued to the next. -/
theorem Cut.withoutBlanks (h : Cut s pieces)
    (hspaced : Token.IsSpaced ((solidPieces pieces).map Prod.fst)) :
    Cut s.withoutBlanks (solidPieces pieces) := by
  have hspells : ∀ piece ∈ pieces, piece.1.Spells piece.2 := fun _ => h.spells_of_mem
  have hsolid : ∀ piece ∈ solidPieces pieces, piece.1.kind.standsInTags := fun piece hpiece =>
    hspaced.standsInTags _ (List.mem_map_of_mem hpiece)
  rw [← h.flatten_eq, withoutBlanks_flatten hspells hsolid]
  exact cut_of_isSpaced (fun piece hpiece => hspells piece (List.mem_filter.mp hpiece).1) hspaced

end Text

end MoveText
