import MoveText.Proofs.Token.Spacing
import MoveText.Proofs.Token.Stuck

/-!
# Offsets of tokens

`Token.at?` reads the token at an offset. It gives none exactly at the end of the text and past it;
before the end, the token takes at least one unit and ends within the text, or the rejection is
located there. What it finds depends on the text from the offset on, and not on what stands before
(`Token.at?_append`).

Going from offset to offset, `Token.Reached` says which are come to, and with which tokens before
them. The text before such an offset has just these tokens, and no other front part of the text has
them and is followed by what cannot be read (`Token.lexing_advances`).
-/

namespace MoveText

namespace Text

variable {s front back rest : Text} {n : Nat}

private theorem charUnits_pos (c : Char) : 0 < charUnits c := by
  rw [charUnits]
  split_ifs <;> decide

/-- A text that is not empty has units. -/
private theorem units_pos (hs : s ≠ []) : 0 < units s := by
  cases s with
  | nil => exact absurd rfl hs
  | cons c s => exact Nat.add_pos_left (charUnits_pos c) _

private theorem cut?_units_append (front back : Text) :
    cut? (units front) (front ++ back) = some back := by
  induction front with
  | nil => cases back <;> rfl
  | cons c front ih =>
    obtain ⟨n, hn⟩ := Nat.exists_eq_add_one.mpr (charUnits_pos c)
    have hcount : units (c :: front) = n + units front + 1 := by
      rw [units, hn]
      omega
    rw [List.cons_append, hcount, cut?, hn, if_pos (by omega)]
    rwa [show n + units front + 1 - (n + 1) = units front by omega]

/-- **What follows an offset** is what follows a front part of that many units. -/
theorem cut?_eq_some_iff :
    cut? n s = some rest ↔ ∃ front, s = front ++ rest ∧ units front = n := by
  constructor
  · intro h
    induction s generalizing n with
    | nil =>
      cases n with
      | zero => exact ⟨[], by simpa [cut?] using h, rfl⟩
      | succ n => cases h
    | cons c s ih =>
      cases n with
      | zero => exact ⟨[], by simpa [cut?] using h, rfl⟩
      | succ n =>
        rw [cut?] at h
        split_ifs at h with hunits
        obtain ⟨front, rfl, hfront⟩ := ih h
        refine ⟨c :: front, rfl, ?_⟩
        rw [units, hfront]
        omega
  · rintro ⟨front, rfl, rfl⟩
    exact cut?_units_append front rest

end Text

namespace Token

variable {s front back : Text} {token : Token} {tokens : List Token} {cause : LexicalCause}
  {start place offset width inner : Nat}

/-! ### The token at an offset -/

theorem at?_eq_none_iff : at? s start = .ok none ↔ Text.units s ≤ start := by
  rw [at?]
  constructor
  · intro h
    split_ifs at h with hend
    · omega
    · split at h
      · cases h
      · next rest _ =>
        cases hread : Lexeme.read rest <;> rw [hread] at h <;> cases h
  · intro h
    rw [if_pos (by omega)]

/-- Behind a front part the token is that of the rest. -/
private theorem at?_eq_measured (hback : back ≠ []) :
    at? (front ++ back) (Text.units front) =
      (measured (Text.units front) (Lexeme.read back)).map some := by
  have hpos := Text.units_pos hback
  rw [at?, Text.units_append, if_neg (by omega), textFrom?, if_neg (by omega), Int.toNat_natCast,
    Text.cut?_units_append]

/-- Between the two units of a character there is no token. -/
theorem at?_of_inside (hstart : start < Text.units s)
    (hinside : ∀ front back, s = front ++ back → Text.units front ≠ start) :
    at? s start = .error (.lexical .unrecognized start) := by
  have hcut : Text.cut? start s = none := by
    refine Option.eq_none_iff_forall_ne_some.mpr fun rest hrest => ?_
    obtain ⟨front, hs, hfront⟩ := Text.cut?_eq_some_iff.mp hrest
    exact hinside front rest hs hfront
  rw [at?, if_neg (by omega), textFrom?, if_neg (by omega), Int.toNat_natCast, hcut]

/-- **The token at an offset is that of the text from there on**, and so is the rejection, further
along. -/
theorem at?_append (front back : Text) : at? (front ++ back) (Text.units front) =
    (at? back 0).mapError (Rejection.shift (Text.units front)) := by
  by_cases hback : back = []
  · subst hback
    rw [at?_eq_none_iff.mpr (by simp)]
    rfl
  · have hzero : at? ([] ++ back) (Text.units []) = _ := at?_eq_measured hback
    rw [List.nil_append, Text.units] at hzero
    rw [at?_eq_measured hback]
    refine Eq.trans ?_ (congrArg (Except.mapError _) hzero).symm
    cases Lexeme.read back with
    | ok lexeme => rfl
    | error found =>
      obtain ⟨cause, inner⟩ := found
      simp [measured, Except.map, Except.mapError, Rejection.shift, Int.add_comm]

/-- Only at the end of the text nothing is found. -/
private theorem ne_nil_of_at? {found : Except Rejection (Option (Token × Nat))}
    (h : at? (front ++ back) (Text.units front) = found) (hfound : found ≠ .ok none) :
    back ≠ [] := by
  rintro rfl
  exact hfound (h.symm.trans (at?_eq_none_iff.mpr (by simp)))

/-- Where a token is found, a lexeme is read, which is as wide. -/
theorem at?_eq_some_iff (hback : back ≠ []) :
    at? (front ++ back) (Text.units front) = .ok (some (token, width)) ↔
      ∃ word rest, Lexeme.read back = .ok ⟨token, word, rest⟩ ∧ width = Text.units word := by
  rw [at?_eq_measured hback]
  cases Lexeme.read back with
  | error found => simp [measured, Except.map]
  | ok lexeme =>
    obtain ⟨found, word, rest⟩ := lexeme
    constructor
    · intro h
      obtain ⟨rfl, rfl⟩ : found = token ∧ Text.units word = width := by
        simpa [measured, Except.map] using h
      exact ⟨word, rest, rfl, rfl⟩
    · rintro ⟨_, _, h, rfl⟩
      cases h
      rfl

theorem at?_eq_error_iff (hback : back ≠ []) {rejection : Rejection} :
    at? (front ++ back) (Text.units front) = .error rejection ↔
      ∃ cause inner, Lexeme.read back = .error (cause, inner) ∧
        rejection = .lexical cause (Text.units front + inner : Nat) := by
  rw [at?_eq_measured hback]
  cases Lexeme.read back with
  | ok lexeme => simp [measured, Except.map]
  | error found => simp [measured, Except.map, Prod.ext_iff, eq_comm]

/-- **A token is found within the text**, or the rejection is located there. -/
theorem at?_of_lt (hstart : start < Text.units s) :
    (∃ token width, at? s start = .ok (some (token, width)) ∧ 1 ≤ width ∧
      start + width ≤ Text.units s) ∨
    ∃ cause offset, at? s start = .error (.lexical cause (offset : Nat)) ∧ start ≤ offset ∧
      offset ≤ Text.units s := by
  by_cases hcut : ∃ front back, s = front ++ back ∧ Text.units front = start
  · obtain ⟨front, back, rfl, rfl⟩ := hcut
    have hback : back ≠ [] := by
      rintro rfl
      simp at hstart
    rw [Text.units_append]
    cases hread : Lexeme.read back with
    | ok lexeme =>
      obtain ⟨htext, hspells, -⟩ := Lexeme.startsText_of_read hread
      have hwidth := Text.units_pos hspells.ne_nil
      refine .inl ⟨_, _, (at?_eq_some_iff hback).mpr ⟨_, _, hread, rfl⟩, hwidth, ?_⟩
      rw [← htext, Text.units_append]
      omega
    | error found =>
      have hinner := (Lexeme.stuck_of_read hread).le
      exact .inr ⟨_, _, (at?_eq_error_iff hback).mpr ⟨_, _, hread, rfl⟩, by omega, by omega⟩
  · simp only [not_exists, not_and] at hcut
    exact .inr ⟨_, start, at?_of_inside hstart hcut, Nat.le_refl _, hstart.le⟩

end Token

/-! ### Places that the lexer comes to -/

namespace Text

variable {token : Token} {word front back more : Text}

/-- A lexeme is read also if the text ends earlier behind it. -/
private theorem read_of_append
    (h : Lexeme.read (word ++ (front ++ back)) = .ok ⟨token, word, front ++ back⟩) :
    Lexeme.read (word ++ front) = .ok ⟨token, word, front⟩ := by
  have hcut : ∀ {p : Char → Bool}, startsIn p (front ++ back) = false →
      startsIn p front = false := by
    intro p hp
    cases front with
    | nil => rfl
    | cons c front => exact hp
  obtain ⟨⟨-, hspells, hmaximal⟩, hquote⟩ := Lexeme.read_eq_ok_iff.mp h
  exact Lexeme.read_eq_ok_iff.mpr ⟨⟨rfl, hspells, hcut hmaximal⟩, fun hword => hcut (hquote hword)⟩

/-- The same token is read off the front of a text and of a front part of it, which something that
cannot be read follows: then it has one spelling. -/
private theorem eq_of_startsText {rest word' rest' back' : Text} {found : LexicalCause × Nat}
    (h : Lexeme.StartsText ⟨token, word, rest⟩ (word ++ rest))
    (h' : Lexeme.StartsText ⟨token, word', rest'⟩ (word' ++ rest'))
    (hsame : word ++ rest = word' ++ (rest' ++ back')) (hread' : Lexeme.read back' = .error found) :
    word = word' := by
  have hspells : token.Spells word := h.spells
  have hspells' : token.Spells word' := h'.spells
  have hmaximal : startsIn token.kind.continues rest = false := h.maximal
  have hmaximal' : startsIn token.kind.continues rest' = false := h'.maximal
  rcases List.append_eq_append_iff.mp hsame with ⟨more, rfl, hrest⟩ | ⟨more, rfl, hrest⟩
  · rcases hspells.eq_nil_or_of_append hspells' with rfl | ⟨hkind, rfl⟩
    · rw [List.append_nil]
    · -- the width would have prolonged the digits
      rw [hkind, hrest] at hmaximal
      cases hmaximal
  · rcases hspells'.eq_nil_or_of_append hspells with rfl | ⟨hkind, rfl⟩
    · rw [List.append_nil]
    · cases rest' with
      | nil =>
        -- a width is a name, which can be read
        have hback : back' = 'u' :: ('6' :: '4' :: rest) := hrest
        rw [hback, Lexeme.read_alpha (by decide) fun _ => rfl] at hread'
        cases hread'
      | cons c rest' =>
        obtain ⟨rfl, -⟩ := List.cons.inj hrest
        rw [hkind] at hmaximal'
        cases hmaximal'

namespace StandsBetween

/-- A place stays one if the text ends earlier behind it. -/
theorem of_append (h : StandsBetween front (back ++ more)) : StandsBetween front back := by
  generalize hwhole : back ++ more = whole at h
  induction h with
  | start => exact .start back
  | lexeme hread _ ih =>
    subst hwhole
    exact .lexeme (read_of_append (by simpa only [List.append_assoc] using hread)) (ih rfl)

/-- Behind a place the lexer comes to the place behind the next lexeme. -/
theorem append (h : StandsBetween front (word ++ back))
    (hread : Lexeme.read (word ++ back) = .ok ⟨token, word, back⟩) :
    StandsBetween (front ++ word) back := by
  generalize hwhole : word ++ back = whole at h hread
  induction h with
  | start =>
    subst hwhole
    have hlexeme : StandsBetween (word ++ []) back := .lexeme hread (.start back)
    rwa [List.append_nil] at hlexeme
  | lexeme hfirst _ ih =>
    have hrest := ih hwhole hread
    subst hwhole
    rw [List.append_assoc]
    exact .lexeme (by simpa only [List.append_assoc] using hfirst) hrest

/-- **Up to a place the lexer finds the tokens of the text before it**, and then it goes on with
what follows. -/
theorem exists_tokens (h : StandsBetween front back) :
    ∃ tokens, ∀ offset, Token.ofTextFrom offset front = .ok tokens ∧
      Token.ofTextFrom offset (front ++ back) =
        (Token.ofTextFrom (offset + units front) back).map (tokens ++ ·) := by
  induction h with
  | start back =>
    refine ⟨[], fun offset => ⟨rfl, ?_⟩⟩
    rw [List.nil_append, units, Nat.add_zero]
    cases Token.ofTextFrom offset back <;> rfl
  | @lexeme token word front back hread _ ih =>
    obtain ⟨tokens, htokens⟩ := ih
    refine ⟨token :: tokens, fun offset => ⟨?_, ?_⟩⟩
    · rw [Token.ofTextFrom_of_read (read_of_append hread), (htokens _).1]
      rfl
    · rw [List.append_assoc, Token.ofTextFrom_of_read hread, (htokens _).2, units_append,
        Nat.add_assoc]
      cases Token.ofTextFrom (offset + (units word + units front)) back <;> rfl

/-- The tokens before a place are known from the text there. -/
private theorem ofTextFrom_eq {tokens : List Token} (h : StandsBetween front back)
    (htokens : Token.ofText front = .ok tokens) (offset : Nat) :
    Token.ofTextFrom offset (front ++ back) =
      (Token.ofTextFrom (offset + units front) back).map (tokens ++ ·) := by
  obtain ⟨found, hfound⟩ := h.exists_tokens
  obtain rfl : found = tokens := Except.ok.inj ((hfound 0).1.symm.trans htokens)
  exact (hfound offset).2

/-- **No other place has the same tokens before it and no lexeme behind it.** -/
theorem eq_of_read_error {front' back' : Text} {tokens : List Token} {offset offset' : Nat}
    {found : LexicalCause × Nat} (h : StandsBetween front back)
    (htokens : Token.ofTextFrom offset front = .ok tokens)
    (htokens' : Token.ofTextFrom offset' front' = .ok tokens)
    (hsame : front ++ back = front' ++ back') (hread' : Lexeme.read back' = .error found) :
    front = front' := by
  obtain ⟨pieces, hcut, hpieces⟩ := Token.ofTextFrom_eq_ok_iff.mp htokens'
  induction h generalizing front' tokens pieces offset with
  | start =>
    cases htokens
    rw [List.map_eq_nil_iff.mp hpieces] at hcut
    exact hcut.flatten_eq
  | @lexeme token word front back hread _ ih =>
    have hfirst := read_of_append hread
    rw [Token.ofTextFrom_of_read hfirst] at htokens
    cases hrest : Token.ofTextFrom (offset + units word) front with
    | error rejection => simp [hrest, Except.map] at htokens
    | ok others =>
      rw [hrest] at htokens
      obtain rfl := Except.ok.inj htokens
      cases hcut with
      | nil => cases hpieces
      | @cons _ lexeme pieces first tail =>
        obtain ⟨token', word', rest'⟩ := lexeme
        obtain ⟨rfl, hothers⟩ := List.cons.inj hpieces
        obtain rfl := first.text_eq
        rw [List.append_assoc, List.append_assoc] at hsame
        obtain rfl := eq_of_startsText (Lexeme.startsText_of_read hread) first hsame hread'
        have hbehind := List.append_cancel_left hsame
        rw [ih hrest (Token.ofTextFrom_eq_ok_iff.mpr ⟨pieces, tail, hothers⟩) hbehind pieces tail
          hothers]

end StandsBetween

end Text

namespace Token

variable {s : Text} {place : Nat} {tokens : List Token}

/-- **The offsets that are come to** in a text, going by the width of each token from one to the
next, with the tokens before them. -/
inductive Reached (s : Text) : Nat → List Token → Prop
  | start : Reached s 0 []
  | next {place width : Nat} {tokens : List Token} {token : Token} (h : Reached s place tokens)
      (hread : at? s place = .ok (some (token, width))) :
      Reached s (place + width) (tokens ++ [token])

/-- An offset that is come to is a place of the lexer, and the tokens are those of the text before
it. -/
private theorem Reached.exists_standsBetween (h : Reached s place tokens) :
    ∃ front back, s = front ++ back ∧ Text.units front = place ∧ Text.StandsBetween front back ∧
      ofText front = .ok tokens := by
  induction h with
  | start => exact ⟨[], s, rfl, rfl, .start s, rfl⟩
  | next _ hread ih =>
    obtain ⟨front, back, rfl, rfl, hplace, htokens⟩ := ih
    have hback : back ≠ [] := ne_nil_of_at? hread nofun
    obtain ⟨word, rest, hlexeme, rfl⟩ := (at?_eq_some_iff hback).mp hread
    obtain rfl : word ++ rest = back := (Lexeme.startsText_of_read hlexeme).text_eq
    refine ⟨front ++ word, rest, (List.append_assoc ..).symm, Text.units_append front word,
      hplace.append hlexeme, ?_⟩
    -- the text before the next place ends with the lexeme
    have hword : Lexeme.read (word ++ []) = .ok ⟨_, word, []⟩ := Text.read_of_append hlexeme
    rw [List.append_nil] at hword
    rw [ofText_eq, hplace.of_append.ofTextFrom_eq htokens, ofTextFrom_of_read hword]
    rfl

/-- **Going from offset to offset comes to an end.** -/
theorem exists_reached (s : Text) : ∃ place tokens, Reached s place tokens ∧
    (at? s place = .ok none ∨ ∃ rejection, at? s place = .error rejection) := by
  suffices h : ∀ left place tokens, Text.units s - place = left → Reached s place tokens →
      ∃ place tokens, Reached s place tokens ∧
        (at? s place = .ok none ∨ ∃ rejection, at? s place = .error rejection) from
    h _ 0 [] rfl .start
  intro left
  induction left using Nat.strongRecOn with
  | _ left ih =>
    rintro place tokens rfl hreached
    by_cases hend : Text.units s ≤ place
    · exact ⟨place, tokens, hreached, .inl (at?_eq_none_iff.mpr hend)⟩
    · rcases at?_of_lt (Nat.lt_of_not_le hend) with
        ⟨token, width, hread, hwidth, hle⟩ | ⟨cause, offset, hread, -⟩
      · exact ih _ (by omega) (place + width) _ rfl (hreached.next hread)
      · exact ⟨place, tokens, hreached, .inr ⟨_, hread⟩⟩

/-- At the end of the text the tokens are all of it. -/
theorem Reached.ofText_of_none (h : Reached s place tokens) (hend : at? s place = .ok none) :
    ofText s = .ok tokens := by
  obtain ⟨front, back, rfl, rfl, hplace, htokens⟩ := h.exists_standsBetween
  have hback : back = [] := by
    by_contra hback
    have hpos := Text.units_pos hback
    have hle := at?_eq_none_iff.mp hend
    rw [Text.units_append] at hle
    omega
  rw [hback, List.append_nil, htokens]

/-- **Where a token is turned down, the text is**, and no other offset with the same tokens before
it is turned down. -/
theorem Reached.ofText_of_error {rejection : Rejection} (h : Reached s place tokens)
    (hstop : at? s place = .error rejection) : ofText s = .error rejection ∧
      ∃ cause inner, rejection = .lexical cause (place + inner : Nat) ∧
        (∀ other : Nat, (other ≤ place + inner ∧
          (∃ front back, s = front ++ back ∧ Text.units front = other ∧ ofText front = .ok tokens) ∧
          at? s other = .error rejection) ↔ other = place) ∧
        ∃ front back, s = front ++ back ∧ Text.units front = place ∧ back ≠ [] ∧
          Lexeme.Stuck back cause inner := by
  obtain ⟨front, back, rfl, rfl, hplace, htokens⟩ := h.exists_standsBetween
  have hback : back ≠ [] := ne_nil_of_at? hstop nofun
  obtain ⟨cause, inner, hread, rfl⟩ := (at?_eq_error_iff hback).mp hstop
  refine ⟨?_, cause, inner, rfl, fun other => ⟨?_, ?_⟩, front, back, rfl, rfl, hback,
    Lexeme.stuck_of_read hread⟩
  · rw [ofText_eq, hplace.ofTextFrom_eq htokens, ofTextFrom_of_read_error hback hread, Nat.zero_add]
    rfl
  · rintro ⟨-, ⟨front', back', hs, rfl, htokens'⟩, hstop'⟩
    rw [hs] at hstop'
    obtain ⟨_, _, hread', -⟩ := (at?_eq_error_iff (ne_nil_of_at? hstop' nofun)).mp hstop'
    rw [hplace.eq_of_read_error htokens htokens' hs hread']
  · rintro rfl
    exact ⟨Nat.le_add_right _ _, ⟨front, back, rfl, rfl, htokens⟩, hstop⟩

/-- **Lexing always advances, and tells where it stops.** There is no token exactly at the end of a
text and past it. Before the end, the token at an offset takes at least one unit and no more than
are left, or the rejection is located between the offset and the end; and it is that of the text
from the offset on, with rejections further along by what stands before. An offset inside a
character, from which on there is no text, is turned down itself.

Going from offset to offset therefore comes to an end, and what comes of it there comes of the text.
If the text is turned down, one offset alone has just the tokens before it that were found, and is
turned down in the same way: there the text is stuck as `Lexeme.Stuck` says. -/
theorem lexing_advances (s : Text) :
    (∀ start : Nat, at? s start = .ok none ↔ Text.units s ≤ start) ∧
    (∀ start : Nat, start < Text.units s →
      (∃ token width, at? s start = .ok (some (token, width)) ∧ 1 ≤ width ∧
        width ≤ Text.units s - start) ∨
      ∃ cause offset, at? s start = .error (.lexical cause (offset : Nat)) ∧ start ≤ offset ∧
        offset ≤ Text.units s) ∧
    (∀ front back, s = front ++ back → at? s (Text.units front) =
      (at? back 0).mapError (Rejection.shift (Text.units front))) ∧
    (∀ start : Nat, start < Text.units s →
      (∀ front back, s = front ++ back → Text.units front ≠ start) →
      at? s start = .error (.lexical .unrecognized start)) ∧
    (∃ place tokens, Reached s place tokens ∧
      (at? s place = .ok none ∨ ∃ rejection, at? s place = .error rejection)) ∧
    ∀ place tokens, Reached s place tokens →
      (at? s place = .ok none → ofText s = .ok tokens) ∧
      ∀ rejection, at? s place = .error rejection → ofText s = .error rejection ∧
        ∃ cause inner, rejection = .lexical cause (place + inner : Nat) ∧
          (∀ other : Nat, (other ≤ place + inner ∧
            (∃ front back, s = front ++ back ∧ Text.units front = other ∧
              ofText front = .ok tokens) ∧
            at? s other = .error rejection) ↔ other = place) ∧
          ∃ front back, s = front ++ back ∧ Text.units front = place ∧ back ≠ [] ∧
            Lexeme.Stuck back cause inner := by
  refine ⟨fun _ => at?_eq_none_iff, fun start hstart => ?_, ?_, fun _ => at?_of_inside,
    exists_reached s, fun place tokens hreached => ⟨hreached.ofText_of_none, ?_⟩⟩
  · rcases at?_of_lt hstart with ⟨token, width, hread, hwidth, hle⟩ | herror
    · exact .inl ⟨token, width, hread, hwidth, by omega⟩
    · exact .inr herror
  · rintro front back rfl
    exact at?_append front back
  · intro rejection hstop
    exact hreached.ofText_of_error hstop

/-- A number with a wrong width behind a name and a space: the digits start at the second unit, and
the letter behind them is at the fourth. -/
theorem lexing_advances_suffix :
    let s : Text := "a 12u9".toList
    let found : List Token := [⟨.name, some ['a']⟩, ⟨.whitespace, some [' ']⟩]
    Reached s 2 found ∧
      at? s 2 = (at? "12u9".toList 0).mapError (Rejection.shift 2) ∧
      ofText s = .error (.lexical .badSuffix 4) ∧
      ∀ other : Nat, (other ≤ 4 ∧
        (∃ front back, s = front ++ back ∧ Text.units front = other ∧ ofText front = .ok found) ∧
        at? s other = .error (.lexical .badSuffix 4)) ↔ other = 2 := by
  intro s found
  obtain ⟨-, -, happend, -, -, hplaces⟩ := lexing_advances s
  have hname : Reached s (0 + 1) ([] ++ [⟨.name, some ['a']⟩]) := .next .start rfl
  have hreached : Reached s (0 + 1 + 1) ([] ++ [⟨.name, some ['a']⟩] ++ [_]) := hname.next rfl
  obtain ⟨htext, cause, inner, hrejection, hother, -⟩ :=
    (hplaces 2 found hreached).2 (.lexical .badSuffix 4) rfl
  obtain ⟨-, hinner⟩ := Rejection.lexical.inj hrejection
  obtain rfl : inner = 2 := by omega
  exact ⟨hreached, happend ['a', ' '] "12u9".toList rfl, htext, hother⟩

end Token

end MoveText
