import MoveText.Proofs.Text.Ascii

/-!
# What lowercasing leaves

A character is settled if lowercasing keeps it, wherever it stands. No small letter is a capital, so
all that lowercasing leaves is settled (`isSettled_of_mem_lowercase`), and settled text stays as it
is (`lowercase_of_isSettled`). Beyond ASCII, the letters `i` and `k` alone have capitals, the dotted
I and the Kelvin sign, so a text that is lowercased to other characters of seven bits was made of
such characters (`isAscii_of_lowercase`).
-/

namespace MoveText.Text

/-! ### The table of capitals -/

namespace CapitalRun

private theorem smallLetter?_eq_some_iff {run : CapitalRun} {n m : Nat} :
    run.smallLetter? n = some m ↔
      (run.first ≤ n ∧ n ≤ run.last ∧ (n - run.first) % run.step = 0) ∧
        run.small + (n - run.first) = m := by
  simp [smallLetter?, and_assoc]

/-- The last of the small letters. -/
def lastSmall (run : CapitalRun) : Nat := run.small + (run.last - run.first)

/-- No small letter of the run is a capital of the other one: they lie apart, or take turns. -/
def avoids (run other : CapitalRun) : Bool :=
  run.lastSmall < other.first || other.last < run.small ||
    other.step == 2 && (run.step == 2 || run.first == run.last) &&
      (run.small + other.first) % 2 == 1

private theorem smallLetter?_eq_none_of_avoids {run other : CapitalRun} {n m : Nat}
    (h : run.avoids other) (hm : run.smallLetter? n = some m) : other.smallLetter? m = none := by
  obtain ⟨⟨hfirst, hlast, hstep⟩, rfl⟩ := smallLetter?_eq_some_iff.mp hm
  rw [Option.eq_none_iff_forall_ne_some]
  intro k hk
  obtain ⟨⟨hfirst', hlast', hstep'⟩, -⟩ := smallLetter?_eq_some_iff.mp hk
  simp only [avoids, Bool.or_eq_true, Bool.and_eq_true, decide_eq_true_eq, beq_iff_eq] at h
  rcases h with (hbelow | habove) | ⟨⟨htwo, hturns⟩, hodd⟩
  · rw [lastSmall] at hbelow
    omega
  · omega
  · rw [htwo] at hstep'
    rcases hturns with hrun | hrun
    · rw [hrun] at hstep
      omega
    · omega

end CapitalRun

/-- The runs of capitals and those of small letters do not overlap. -/
private theorem capitalRuns_avoid :
    (capitalRuns.all fun run => capitalRuns.all run.avoids) = true := by
  decide +kernel

/-- The small letters are characters, beyond ASCII but for the `k` of the Kelvin sign, and none of
them is the dotted capital I. -/
private theorem capitalRuns_small : ∀ run ∈ capitalRuns,
    (run.small = 0x6b ∧ run.lastSmall = 0x6b ∨ 0x80 ≤ run.small) ∧
      (run.lastSmall < 0x130 ∨ 0x130 < run.small) ∧
      (run.lastSmall < 0xd800 ∨ 0xdfff < run.small) ∧ run.lastSmall < 0x110000 := by
  decide +kernel

variable {n m : Nat}

/-- A small letter lies in a run of small letters. -/
private theorem exists_capitalRun (h : smallLetter? n = some m) :
    ∃ run ∈ capitalRuns, run.smallLetter? n = some m ∧ run.small ≤ m ∧ m ≤ run.lastSmall := by
  obtain ⟨run, hrun, hm⟩ := List.exists_of_findSome?_eq_some h
  obtain ⟨⟨hfirst, hlast, -⟩, rfl⟩ := CapitalRun.smallLetter?_eq_some_iff.mp hm
  refine ⟨run, hrun, hm, Nat.le_add_right _ _, ?_⟩
  rw [CapitalRun.lastSmall]
  omega

/-- **No small letter is a capital.** -/
theorem smallLetter?_eq_none (h : smallLetter? n = some m) : smallLetter? m = none := by
  obtain ⟨run, hrun, hm, -⟩ := exists_capitalRun h
  refine List.findSome?_eq_none_iff.mpr fun other hother => ?_
  have havoid := List.all_eq_true.mp (List.all_eq_true.mp capitalRuns_avoid run hrun) other hother
  exact CapitalRun.smallLetter?_eq_none_of_avoids havoid hm

private theorem toNat_ofNat_smallLetter (h : smallLetter? n = some m) :
    (Char.ofNat m).toNat = m := by
  obtain ⟨run, hrun, -, hle, hge⟩ := exists_capitalRun h
  obtain ⟨-, -, hsurrogates, hgreatest⟩ := capitalRuns_small run hrun
  have hvalid : m.isValidChar := by
    rw [Nat.isValidChar]
    omega
  rw [Char.ofNat, dif_pos hvalid]
  rfl

private theorem smallLetter_cases (h : smallLetter? n = some m) :
    m = 0x6b ∨ 0x80 ≤ m ∧ m ≠ 0x130 := by
  obtain ⟨run, hrun, -, hle, hge⟩ := exists_capitalRun h
  obtain ⟨hascii, hdotted, -⟩ := capitalRuns_small run hrun
  omega

/-! ### Characters that lowercasing keeps -/

/-- Lowercasing keeps the character, wherever it stands. -/
structure IsSettled (c : Char) : Prop where
  ne_sigma : c ≠ '\u03a3'
  lowercaseChar_eq : lowercaseChar c = [c]

/-- A character beyond ASCII is settled if it has no small letter. -/
private theorem isSettled_of_smallLetter? {c : Char} (hascii : 0x80 ≤ c.toNat)
    (hdotted : c ≠ '\u0130') (h : smallLetter? c.toNat = none) : IsSettled c := by
  have hnot : ¬ c.toNat < 0x80 := by omega
  refine ⟨?_, ?_⟩
  · rintro rfl
    exact absurd h (by decide)
  · rw [lowercaseChar, if_neg hnot, if_neg hdotted, h]

theorem isSettled_of_isAscii {c : Char} (hc : isAscii c) : IsSettled c.toLower := by
  have hlower : isAscii c.toLower ∧ c.toLower.toLower = c.toLower :=
    of_isAscii (P := fun c => isAscii c.toLower ∧ c.toLower.toLower = c.toLower) (by decide) hc
  refine ⟨?_, ?_⟩
  · intro hsigma
    rw [hsigma] at hlower
    exact absurd hlower.1 (by decide)
  · rw [lowercaseChar, if_pos (isAscii_iff.mp hlower.1), hlower.2]

/-- **The small form of a character** is made of settled characters. If the character is not one of
seven bits, its small form has one that is not either, or an `i` or a `k`. -/
theorem lowercaseChar_spec (c : Char) :
    (∀ d ∈ lowercaseChar c, IsSettled d) ∧
      (isAscii c ∨ ∃ d ∈ lowercaseChar c, ¬ isAscii d ∨ d = 'i' ∨ d = 'k') := by
  rw [lowercaseChar]
  split_ifs with hascii hdotted
  · refine ⟨fun d hd => ?_, .inl (isAscii_iff.mpr hascii)⟩
    rw [List.mem_singleton.mp hd]
    exact isSettled_of_isAscii (isAscii_iff.mpr hascii)
  · refine ⟨fun d hd => ?_, .inr ⟨'i', List.mem_cons_self, .inr (.inl rfl)⟩⟩
    rcases List.mem_cons.mp hd with rfl | hd
    · exact isSettled_of_isAscii (c := 'i') (by decide)
    · rw [List.mem_singleton.mp hd]
      exact isSettled_of_smallLetter? (by decide) (by decide) (by decide)
  · split
    · next m hm =>
      have hcode := toNat_ofNat_smallLetter hm
      simp only [List.mem_singleton, forall_eq, exists_eq_left]
      rcases smallLetter_cases hm with rfl | ⟨hbeyond, hne⟩
      · exact ⟨isSettled_of_isAscii (c := 'k') (by decide), .inr (.inr (.inr rfl))⟩
      · refine ⟨isSettled_of_smallLetter? (by rwa [hcode]) ?_ ?_, .inr (.inl ?_)⟩
        · intro heq
          rw [heq] at hcode
          exact hne hcode.symm
        · rw [hcode]
          exact smallLetter?_eq_none hm
        · rw [isAscii_iff, hcode]
          omega
    · next hnone =>
      simp only [List.mem_singleton, forall_eq, exists_eq_left]
      refine ⟨isSettled_of_smallLetter? (by omega) hdotted hnone, .inr (.inl ?_)⟩
      rwa [isAscii_iff]

private theorem isSettled_smallSigma (before after : Text) :
    IsSettled (smallSigma before after) ∧ ¬ isAscii (smallSigma before after) := by
  rw [smallSigma]
  split_ifs <;>
    exact ⟨isSettled_of_smallLetter? (by decide) (by decide) (by decide), by decide⟩

/-! ### Whole texts -/

private theorem isSettled_of_mem_lowercaseAfter {before s : Text} {d : Char}
    (hd : d ∈ lowercaseAfter before s) : IsSettled d := by
  induction s generalizing before with
  | nil => cases hd
  | cons c s ih =>
    rw [lowercaseAfter] at hd
    split_ifs at hd
    · rcases List.mem_cons.mp hd with rfl | hd
      · exact (isSettled_smallSigma before s).1
      · exact ih hd
    · rcases List.mem_append.mp hd with hd | hd
      · exact (lowercaseChar_spec c).1 d hd
      · exact ih hd

/-- **All that lowercasing leaves is settled.** -/
theorem isSettled_of_mem_lowercase {s : Text} {d : Char} (hd : d ∈ lowercase s) : IsSettled d :=
  isSettled_of_mem_lowercaseAfter hd

/-- **Settled text stays as it is.** -/
theorem lowercase_of_isSettled {s : Text} (hs : ∀ c ∈ s, IsSettled c) : lowercase s = s := by
  suffices h : ∀ before, lowercaseAfter before s = s from h []
  induction s with
  | nil => exact fun _ => rfl
  | cons c s ih =>
    intro before
    obtain ⟨hc, hs⟩ := List.forall_mem_cons.mp hs
    rw [lowercaseAfter, if_neg hc.ne_sigma, hc.lowercaseChar_eq, ih hs, List.singleton_append]

private theorem isAscii_of_lowercaseAfter {before s : Text}
    (h : ∀ d ∈ lowercaseAfter before s, isAscii d ∧ d ≠ 'i' ∧ d ≠ 'k') : ∀ c ∈ s, isAscii c := by
  induction s generalizing before with
  | nil => simp
  | cons c s ih =>
    rw [lowercaseAfter] at h
    split_ifs at h
    · exact absurd (h _ List.mem_cons_self).1 (isSettled_smallSigma before s).2
    · refine List.forall_mem_cons.mpr ⟨?_, ih fun d hd => h d (List.mem_append_right _ hd)⟩
      rcases (lowercaseChar_spec c).2 with hc | ⟨d, hd, hbad⟩
      · exact hc
      · obtain ⟨hascii, hi, hk⟩ := h d (List.mem_append_left _ hd)
        rcases hbad with hbad | hbad | hbad
        · exact absurd hascii hbad
        · exact absurd hbad hi
        · exact absurd hbad hk

/-- A text that is lowercased to characters of seven bits, but to no `i` and no `k`, is made of
such characters. -/
theorem isAscii_of_lowercase {s : Text} (h : ∀ d ∈ lowercase s, isAscii d ∧ d ≠ 'i' ∧ d ≠ 'k') :
    ∀ c ∈ s, isAscii c := isAscii_of_lowercaseAfter h

end MoveText.Text
