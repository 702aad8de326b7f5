import Mathlib.Computability.Language
import MoveText.Proofs.Token.Checks
import MoveText.Proofs.Token.CommaList
import MoveText.Proofs.Token.Occurrence

/-!
# The first offending token

A token offends a language behind some others (`Token.Offends`) if these can be completed to a list
of the language, but not with the token behind them. A reader `Blames` a language if each rejection
that names a token names the first that offends.

What a reader takes is followed by what others take, so it is not enough to know of each what it
blames. A reader `Predicts` a language if, before whatever may follow, it blames the lists of its
language followed by lists of the language that is blamed behind it. Comma lists of items that are
predicted are blamed up to their closing token (`blames_commaList`): behind an item there may be a
comma or the closing token, and behind a comma an item or the closing token.
-/

namespace MoveText

namespace Token

variable {K L M : Language Token} {s t : Token} {words rest : List Token}

/-! ### Languages of tokens -/

/-- Some list of the language is made of tokens that occur. -/
def Completable (M : Language Token) : Prop := ∃ words ∈ M, ∀ t ∈ words, t.Occurs

theorem Completable.mul (hL : Completable L) (hK : Completable K) : Completable (L * K) := by
  obtain ⟨words, hwords, hoccur⟩ := hL
  obtain ⟨rest, hrest, hoccur'⟩ := hK
  exact ⟨words ++ rest, Language.append_mem_mul hwords hrest, List.forall_mem_append.mpr
    ⟨hoccur, hoccur'⟩⟩

theorem completable_one : Completable 1 := ⟨[], Language.nil_mem_one, by simp⟩

/-- The lists of one token of some sort. -/
def oneOf (S : Token → Prop) : Language Token := {words | ∃ t, S t ∧ words = [t]}

private theorem singleton_eq_oneOf (t : Token) : ({[t]} : Language Token) = oneOf (· = t) := by
  ext words
  exact ⟨fun h => ⟨t, rfl, h⟩, fun ⟨_, hs, h⟩ => hs ▸ h⟩

private theorem completable_oneOf {S : Token → Prop} (h : ∃ t, S t ∧ t.Occurs) :
    Completable (oneOf S) := by
  obtain ⟨t, ht, hoccurs⟩ := h
  exact ⟨[t], ⟨t, ht, rfl⟩, List.forall_mem_singleton.mpr hoccurs⟩

theorem mem_oneOf_mul_iff {S : Token → Prop} :
    words ∈ oneOf S * K ↔ ∃ t rest, S t ∧ rest ∈ K ∧ t :: rest = words := by
  rw [Language.mem_mul]
  constructor
  · rintro ⟨_, ⟨t, ht, rfl⟩, rest, hrest, rfl⟩
    exact ⟨t, rest, ht, hrest, rfl⟩
  · rintro ⟨t, rest, ht, hrest, rfl⟩
    exact ⟨[t], ⟨t, ht, rfl⟩, rest, hrest, rfl⟩

theorem cons_mem_oneOf_mul_iff {S : Token → Prop} :
    t :: words ∈ oneOf S * K ↔ S t ∧ words ∈ K := by
  simp [mem_oneOf_mul_iff]

theorem mem_singleton_mul_iff :
    words ∈ ({[t]} : Language Token) * K ↔ ∃ rest ∈ K, t :: rest = words := by
  rw [singleton_eq_oneOf, mem_oneOf_mul_iff]
  simp

theorem cons_mem_singleton_mul_iff :
    t :: words ∈ ({[s]} : Language Token) * K ↔ t = s ∧ words ∈ K := by
  rw [singleton_eq_oneOf, cons_mem_oneOf_mul_iff]

theorem Completable.singleton_mul (hK : Completable K) (ht : t.Occurs) :
    Completable ({[t]} * K) := by
  obtain ⟨words, hwords, hoccur⟩ := hK
  exact ⟨t :: words, cons_mem_singleton_mul_iff.mpr ⟨rfl, hwords⟩,
    List.forall_mem_cons.mpr ⟨ht, hoccur⟩⟩

/-- The language of single names. -/
def names : Language Token := oneOf fun t => t.kind = .name

theorem exists_name : ∃ t : Token, t.kind = .name ∧ t.Occurs :=
  ⟨ofWord ['a'], by decide, .inr ⟨_, spells_ofWord (by decide) (by simp)⟩⟩

theorem Completable.names_mul (hK : Completable K) : Completable (names * K) :=
  (completable_oneOf exists_name).mul hK

/-! ### Offences -/

/-- **The token offends the language behind the tokens in front**: these can be completed by tokens
that occur to a list of the language, but no list of it goes on with the token. -/
structure Offends (M : Language Token) (front : List Token) (token : Token) : Prop where
  completable : ∃ tail, front ++ tail ∈ M ∧ ∀ t ∈ tail, t.Occurs
  dead : ∀ tail, front ++ token :: tail ∉ M

/-- If what follows a token is a list of another language, so are the offences behind it. -/
theorem Offends.cons {front : List Token} (h : Offends L front s)
    (hM : ∀ words, t :: words ∈ M ↔ words ∈ L) : Offends M (t :: front) s where
  completable := by
    obtain ⟨tail, hmem, hoccur⟩ := h.completable
    exact ⟨tail, (hM _).mpr hmem, hoccur⟩
  dead tail hmem := h.dead tail ((hM _).mp hmem)

end Token

namespace TokenReader

open Token

variable {α β : Type} {K L M M' : Language Token} {result : Except Rejection α}
  {rejection : Rejection} {t : Token} {tokens rest : List Token}

/-! ### Blame on given tokens -/

/-- If the rejection names a token, then the first of the tokens that offends. -/
def BlamesOn (M : Language Token) (result : Except Rejection α) (tokens : List Token) : Prop :=
  ∀ rejection shown, result = .error rejection → rejection.actual? = some shown →
    ∃ front token back, tokens = front ++ token :: back ∧ shown = token.describe ∧
      Offends M front token

private theorem blamesOn_ok {a : α} : BlamesOn M (.ok a) tokens := fun _ _ h => by cases h

/-- A rejection that names no token blames none. -/
theorem blamesOn_of_silent (h : rejection.actual? = none) :
    BlamesOn M (.error rejection : Except Rejection α) tokens := by
  rintro _ shown ⟨⟩ hshown
  rw [h] at hshown
  cases hshown

/-- Where no list of the language goes on with the first token, this is to blame. -/
theorem blamesOn_head (hM : Completable M) (hdead : ∀ words, t :: words ∉ M)
    (h : rejection.actual? = some t.describe) :
    BlamesOn M (.error rejection : Except Rejection α) (t :: rest) := by
  rintro _ shown ⟨⟩ hshown
  rw [h] at hshown
  exact ⟨[], t, rest, rfl, (Option.some.inj hshown).symm, hM, hdead⟩

/-- Behind a token that is taken, the language of what may follow it is to be blamed. -/
theorem BlamesOn.cons (h : BlamesOn L result rest) (hM : ∀ words, t :: words ∈ M ↔ words ∈ L) :
    BlamesOn M result (t :: rest) := by
  intro rejection shown hresult hshown
  obtain ⟨front, token, back, rfl, rfl, hoffends⟩ := h rejection shown hresult hshown
  exact ⟨t :: front, token, back, rfl, rfl, hoffends.cons hM⟩

/-- Which lists start with other tokens than the first one makes no difference. -/
theorem BlamesOn.of_head (h : BlamesOn M result (t :: rest)) (hM' : Completable M')
    (hM : ∀ words, t :: words ∈ M' ↔ t :: words ∈ M) : BlamesOn M' result (t :: rest) := by
  intro rejection shown hresult hshown
  obtain ⟨front, token, back, heq, rfl, hoffends⟩ := h rejection shown hresult hshown
  refine ⟨front, token, back, heq, rfl, ?_⟩
  cases front with
  | nil =>
    obtain ⟨rfl, rfl⟩ := List.cons.inj heq
    exact ⟨hM', fun tail hmem => hoffends.dead tail ((hM tail).mp hmem)⟩
  | cons s front =>
    obtain ⟨rfl, rfl⟩ := List.cons.inj heq
    obtain ⟨tail, hmem, hoccur⟩ := hoffends.completable
    exact ⟨⟨tail, (hM _).mpr hmem, hoccur⟩, fun tail hmem => hoffends.dead tail ((hM _).mp hmem)⟩

/-- Where there are no tokens, none is to blame, so the language makes no difference. -/
theorem BlamesOn.of_nil (h : BlamesOn M result []) : BlamesOn M' result [] := by
  intro rejection shown hresult hshown
  obtain ⟨front, token, back, heq, -⟩ := h rejection shown hresult hshown
  simp at heq

/-! ### Readers that blame -/

/-- **The reader blames the language**: a rejection that names a token names the first that
offends. -/
def Blames (M : Language Token) (r : TokenReader α) : Prop :=
  ∀ tokens, BlamesOn M (r tokens).1 tokens

instance : LawfulMonad TokenReader :=
  LawfulMonad.mk' TokenReader
    (fun r => funext fun tokens => by
      change (r >>= fun a => pure a) tokens = r tokens
      rcases h : r tokens with ⟨rejection | a, rest⟩
      · exact bind_of_error h
      · exact bind_of_ok h)
    (fun _ _ => rfl)
    (fun r f g => funext fun tokens => by
      rcases h : r tokens with ⟨rejection | a, rest⟩
      · rw [bind_of_error h, bind_of_error (bind_of_error h)]
      · rw [bind_of_ok h]
        rcases hf : f a rest with ⟨rejection | b, rest'⟩
        · rw [bind_of_error hf, bind_of_error ((bind_of_ok h).trans hf)]
        · rw [bind_of_ok hf, bind_of_ok ((bind_of_ok h).trans hf)])

theorem blames_fail (h : rejection.actual? = none) :
    Blames M (fail rejection : TokenReader α) := fun _ => blamesOn_of_silent h

theorem blames_pure (a : α) : Blames M (pure a : TokenReader α) := fun _ => blamesOn_ok

/-- A check of what a token stands for leaves the blame to what follows. -/
theorem blames_ofExcept_bind {f : α → TokenReader β} (h : FailsOnText result)
    (hf : ∀ a, Blames M (f a)) : Blames M (ofExcept result >>= f) := by
  cases result with
  | error rejection => exact fun tokens => blamesOn_of_silent (h rejection rfl).actual?_eq_none
  | ok a => exact hf a

/-- A token of the sort is taken, and any other one is to blame. -/
theorem blames_next_bind {S : Token → Prop} {f : Token → TokenReader α}
    (hS : ∃ t, S t ∧ t.Occurs) (hK : Completable K) (hin : ∀ t, S t → Blames K (f t))
    (hout : ∀ t, ¬ S t → ∀ tokens, ∃ rejection,
      (f t tokens).1 = .error rejection ∧ rejection.actual? = some t.describe) :
    Blames (oneOf S * K) (next >>= f) := by
  intro tokens
  cases tokens with
  | nil => exact blamesOn_of_silent rfl
  | cons t rest =>
    change BlamesOn _ (f t rest).1 _
    by_cases ht : S t
    · exact (hin t ht rest).cons fun words => by simp [cons_mem_oneOf_mul_iff, ht]
    · obtain ⟨rejection, hfails, hactual⟩ := hout t ht rest
      rw [hfails]
      exact blamesOn_head ((completable_oneOf hS).mul hK)
        (fun words hmem => ht (cons_mem_oneOf_mul_iff.mp hmem).1) hactual

/-- A particular token is taken. -/
theorem blames_expect_bind {r : TokenReader α} (ht : t.Occurs) (hK : Completable K)
    (hr : Blames K r) : Blames ({[t]} * K) (expect t >>= fun _ => r) := by
  rw [singleton_eq_oneOf, expect, bind_assoc]
  refine blames_next_bind ⟨t, rfl, ht⟩ hK ?_ fun actual hactual tokens => ?_
  · rintro _ rfl
    rwa [if_pos rfl, pure_bind]
  · rw [if_neg hactual]
    exact ⟨_, rfl, rfl⟩

/-! ### Readers that predict -/

/-- What may follow an item: lists of which some can be completed and none starts with the bracket
that would prolong the item. -/
structure CanFollow (K : Language Token) : Prop where
  completable : Completable K
  not_lt : ∀ words, .lt :: words ∉ K

/-- **The reader predicts the language**: before whatever may follow, and is blamed there, it blames
the lists of the language with what follows. -/
def Predicts (r : TokenReader α) (L : Language Token) : Prop :=
  ∀ ⦃β : Type⦄ ⦃f : α → TokenReader β⦄ ⦃K : Language Token⦄, CanFollow K → (∀ a, Blames K (f a)) →
    Blames (L * K) (r >>= f)

/-- What starts with another mark can follow. -/
theorem canFollow_singleton_mul (ht : t.Occurs) (hne : t ≠ .lt) (hK : Completable K) :
    CanFollow ({[t]} * K) where
  completable := hK.singleton_mul ht
  not_lt _ hmem := hne (cons_mem_singleton_mul_iff.mp hmem).1.symm

/-- **A whole list is blamed**, from its first token to the end. -/
theorem Predicts.blames_whole {r : TokenReader α} (h : Predicts r L) :
    Blames (L * {[.eof]}) (r >>= fun a => expect .eof >>= fun _ => pure a) := by
  have hend : ({[.eof]} : Language Token) = {[.eof]} * 1 := (mul_one _).symm
  rw [hend]
  refine h (canFollow_singleton_mul (.inl rfl) (by decide) completable_one) fun a => ?_
  exact blames_expect_bind (.inl rfl) completable_one (blames_pure a)

end TokenReader

/-! ### Comma lists -/

/-- The lists of stretches of the language, with single commas between them, and perhaps one more
comma behind the last. -/
def Token.listsOf (L : Language Token) : Language Token :=
  {words | ∃ stretches extra, (stretches = [] → extra = false) ∧
    (∀ stretch ∈ stretches, stretch ∈ L) ∧ words = listed stretches extra}

namespace Token

variable {K L : Language Token} {stop t : Token} {words : List Token}

theorem nil_mem_listsOf (L : Language Token) : [] ∈ listsOf L :=
  ⟨[], false, fun _ => rfl, by simp, rfl⟩

/-- A list is empty, or it goes on behind its first stretch with nothing or with a comma, behind
which there is a list again. -/
private theorem listsOf_eq (L : Language Token) :
    listsOf L = 1 + L * (1 + {[.comma]} * listsOf L) := by
  ext words
  constructor
  · rintro ⟨stretches, extra, hextra, hmem, rfl⟩
    cases stretches with
    | nil =>
      obtain rfl := hextra rfl
      exact .inl rfl
    | cons first stretches =>
      obtain ⟨hfirst, hothers⟩ := List.forall_mem_cons.mp hmem
      refine .inr (Language.mem_mul.mpr ⟨first, hfirst, ?_⟩)
      by_cases hnil : stretches = []
      · subst hnil
        rw [listed_singleton]
        cases extra with
        | false => exact ⟨[], .inl rfl, rfl⟩
        | true =>
          exact ⟨[.comma], .inr (cons_mem_singleton_mul_iff.mpr ⟨rfl, nil_mem_listsOf L⟩), rfl⟩
      · rw [listed_cons hnil]
        refine ⟨.comma :: listed stretches extra, .inr ?_, rfl⟩
        exact cons_mem_singleton_mul_iff.mpr
          ⟨rfl, stretches, extra, fun h => absurd h hnil, hothers, rfl⟩
  · rintro (h | h)
    · obtain rfl := (Language.mem_one words).mp h
      exact nil_mem_listsOf L
    · obtain ⟨first, hfirst, others, hothers, rfl⟩ := Language.mem_mul.mp h
      rcases hothers with rfl | hothers
      · exact ⟨[first], false, by simp, List.forall_mem_singleton.mpr hfirst,
          (listed_singleton first false).symm⟩
      · obtain ⟨_, rfl, _, ⟨stretches, extra, hextra, hmem, rfl⟩, rfl⟩ :=
          Language.mem_mul.mp hothers
        by_cases hnil : stretches = []
        · subst hnil
          obtain rfl := hextra rfl
          exact ⟨[first], true, by simp, List.forall_mem_singleton.mpr hfirst,
            (listed_singleton first true).symm⟩
        · exact ⟨first :: stretches, extra, by simp, List.forall_mem_cons.mpr ⟨hfirst, hmem⟩,
            (listed_cons hnil first extra).symm⟩

/-- The lists of the language start with some token, but not with the given one. -/
def StartsBut (stop : Token) (L : Language Token) : Prop :=
  ∀ words ∈ L, ∃ t rest, words = t :: rest ∧ t ≠ stop

private theorem StartsBut.cons_notMem_mul (h : StartsBut stop L) : stop :: words ∉ L * K := by
  intro hmem
  obtain ⟨front, hfront, back, -, heq⟩ := Language.mem_mul.mp hmem
  obtain ⟨t, rest, rfl, ht⟩ := h front hfront
  exact ht (List.cons.inj heq).1

/-- What can follow an item in a list up to the closing token. -/
private theorem mem_listsOf_mul_iff :
    words ∈ listsOf L * K ↔ words ∈ K ∨ words ∈ L * (K + {[.comma]} * (listsOf L * K)) := by
  have heq : listsOf L * K = K + L * (K + {[.comma]} * (listsOf L * K)) := by
    conv_lhs => rw [listsOf_eq]
    rw [add_mul, one_mul, mul_assoc, add_mul, one_mul, mul_assoc]
  exact (iff_of_eq (congrArg (words ∈ ·) heq)).trans Iff.rfl

theorem Completable.listsOf_mul (hK : Completable K) (L : Language Token) :
    Completable (listsOf L * K) := by
  obtain ⟨words, hwords, hoccur⟩ := hK
  exact ⟨words, mem_listsOf_mul_iff.mpr (.inl hwords), hoccur⟩

end Token

namespace TokenReader

open Token

variable {α β : Type} {item : TokenReader α} {f : List α → TokenReader β} {stop : Token}
  {K L : Language Token}

section CommaList

variable (hstarts : StartsBut stop L) (hstop : stop.Occurs) (hK : Completable K)

include hstarts hstop hK

/-- Where a list may start, the closing token is taken as it is, and anything else as an item. -/
theorem blames_listsOf {r : TokenReader β}
    (hclosed : ∀ rest, BlamesOn ({[stop]} * K) (r (stop :: rest)).1 (stop :: rest))
    (hopen : ∀ tokens, tokens.head? ≠ some stop →
      BlamesOn (L * ({[stop]} * K + {[.comma]} * (listsOf L * ({[stop]} * K))))
        (r tokens).1 tokens) :
    Blames (listsOf L * ({[stop]} * K)) r := by
  have hlists := (hK.singleton_mul hstop).listsOf_mul L
  intro tokens
  cases tokens with
  | nil => exact (hopen [] (by simp)).of_nil
  | cons t rest =>
    by_cases hclose : t = stop
    · subst hclose
      refine (hclosed rest).of_head hlists fun words => mem_listsOf_mul_iff.trans ?_
      exact or_iff_left hstarts.cons_notMem_mul
    · refine (hopen (t :: rest) (by simpa using hclose)).of_head hlists fun words =>
        mem_listsOf_mul_iff.trans ?_
      exact or_iff_right fun hmem => hclose (cons_mem_singleton_mul_iff.mp hmem).1

variable (hitem : Predicts item L) (hlt : stop ≠ .lt) (hcomma : stop ≠ .comma)

include hitem hlt hcomma

/-- Behind the first item the closing token may follow, or a comma and then a list again. -/
theorem blames_itemsWithin (rounds : Nat) (hf : ∀ found, Blames ({[stop]} * K) (f found)) :
    Blames (L * ({[stop]} * K + {[.comma]} * (listsOf L * ({[stop]} * K))))
      (itemsWithin item stop true rounds >>= f) := by
  induction rounds generalizing f with
  | zero => exact blames_fail rfl
  | succ rounds ih =>
    have hafter : CanFollow ({[stop]} * K + {[.comma]} * (listsOf L * ({[stop]} * K))) := by
      have hclosing := canFollow_singleton_mul hstop hlt hK
      obtain ⟨words, hwords, hoccur⟩ := hclosing.completable
      refine ⟨⟨words, .inl hwords, hoccur⟩, fun words hmem => ?_⟩
      rcases hmem with hmem | hmem
      · exact hclosing.not_lt words hmem
      · exact absurd (cons_mem_singleton_mul_iff.mp hmem).1 (by decide)
    rw [itemsWithin, bind_assoc]
    refine hitem hafter fun first tokens => ?_
    cases tokens with
    | nil => exact blamesOn_of_silent rfl
    | cons t rest =>
      rw [bind_assoc, bind_of_ok (nextIs_eq_ok_iff.mpr ⟨rfl, rfl⟩)]
      by_cases hclose : t = stop
      · -- only the lists that are closed at once start with the closing token
        subst hclose
        simp only [List.head?_cons, BEq.rfl, if_true, pure_bind]
        refine (hf [first] (t :: rest)).of_head hafter.completable fun words => ?_
        exact or_iff_left fun hmem => hcomma (cons_mem_singleton_mul_iff.mp hmem).1
      · have hopen : ¬ ((t :: rest).head? == some stop) = true := by simpa using hclose
        rw [if_neg hopen, bind_assoc]
        by_cases hsep : t = .comma
        · subst hsep
          rw [bind_of_ok (a := ()) (expect_eq_ok_iff.mpr rfl), bind_assoc]
          refine (blames_listsOf hstarts hstop hK (fun rest => ?_) (fun tokens hne => ?_)
            rest).cons fun words => ?_
          · rw [bind_of_ok (nextIs_eq_ok_iff.mpr ⟨rfl, rfl⟩)]
            simp only [List.head?_cons, BEq.rfl, Bool.and_self, if_true, pure_bind]
            exact hf [first] (stop :: rest)
          · have hgoesOn : ¬ (true && tokens.head? == some stop) = true := by simpa using hne
            rw [bind_of_ok (nextIs_eq_ok_iff.mpr ⟨rfl, rfl⟩), if_neg hgoesOn, bind_assoc]
            exact ih (fun others => by rw [pure_bind]; exact hf (first :: others)) tokens
          · have hbehind : words ∈ listsOf L * ({[stop]} * K) ↔
                .comma :: words ∈ ({[.comma]} : Language Token) * (listsOf L * ({[stop]} * K)) :=
              (cons_mem_singleton_mul_iff.trans (and_iff_right rfl)).symm
            rw [hbehind]
            exact or_iff_right fun hmem => hclose (cons_mem_singleton_mul_iff.mp hmem).1
        · rw [bind_of_error (expect_eq_error hsep)]
          refine blamesOn_head hafter.completable (fun words hmem => ?_) rfl
          rcases hmem with hmem | hmem
          · exact hclose (cons_mem_singleton_mul_iff.mp hmem).1
          · exact hsep (cons_mem_singleton_mul_iff.mp hmem).1

/-- **A comma list is blamed** up to its closing token, with what follows this. -/
theorem blames_commaList (hf : ∀ found, Blames ({[stop]} * K) (f found)) :
    Blames (listsOf L * ({[stop]} * K)) (commaList item stop true >>= f) := by
  refine blames_listsOf hstarts hstop hK (fun rest => ?_) fun tokens hne => ?_
  · have hread : commaList item stop true (stop :: rest) = (.ok [], stop :: rest) := if_pos rfl
    rw [bind_of_ok hread]
    exact hf [] (stop :: rest)
  · have hread : (commaList item stop true >>= f) tokens =
        (itemsWithin item stop true (tokens.length + 1) >>= f) tokens := by
      dsimp only [bind]
      rw [commaList, if_neg hne]
    rw [hread]
    exact blames_itemsWithin hstarts hstop hK hitem hlt hcomma _ hf tokens

end CommaList

end TokenReader

end MoveText
