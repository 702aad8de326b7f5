import MoveText.Proofs.Binary.Reader

/-!
# Parts of a binary form

The bytes of a value fall into parts: variable-length numbers, which stand for variants and lengths,
bytes of truth values, bodies of strings, and bytes that stand for themselves. All parts but the
last sort can be put in more than one way. A part is canonical if it is as it would be written.

`Rewrites written parts` says that `written` is what is written for a value with the given parts: it
agrees with them exactly if all of them are canonical. This goes through concatenation
(`Rewrites.append`), so it is shown for each sort of part once.
-/

namespace MoveText

/-- A part of a binary form. -/
inductive BinaryPart where
  /-- The groups of a variable-length number. -/
  | number (groups : Bytes)
  /-- The byte of a truth value. -/
  | truth (b : UInt8)
  /-- The body of a string. -/
  | body (bytes : Bytes)
  /-- Bytes that stand for themselves. -/
  | plain (bytes : Bytes)
  deriving DecidableEq, Repr

namespace BinaryPart

/-- The bytes of a part. -/
def bytes : BinaryPart → Bytes
  | number groups => groups
  | truth b => [b]
  | body bytes => bytes
  | plain bytes => bytes

/-- The bytes of parts, one after the other. -/
def concat (parts : List BinaryPart) : Bytes := parts.flatMap bytes

/-- A number has no more groups than it needs, a truth value is a zero or a one, and a string body
is well-formed UTF-8 without a byte order mark in front. -/
def IsCanonical : BinaryPart → Prop
  | number groups => Uleb.IsShortest groups
  | truth b => b = 0 ∨ b = 1
  | body bytes => Text.IsUtf8 bytes ∧ ¬ Text.IsMarked bytes
  | plain _ => True

@[simp]
theorem concat_nil : concat [] = [] := rfl

@[simp]
theorem concat_cons (part : BinaryPart) (parts : List BinaryPart) :
    concat (part :: parts) = part.bytes ++ concat parts := rfl

@[simp]
theorem concat_append (parts parts' : List BinaryPart) :
    concat (parts ++ parts') = concat parts ++ concat parts' := List.flatMap_append

/-- A number has a byte at least. -/
theorem length_concat_number_pos {groups : Bytes} {n : Nat} (h : Uleb.Denotes groups n)
    (parts : List BinaryPart) : 0 < (concat (number groups :: parts)).length := by
  have hpos := h.length_pos
  rw [concat_cons, List.length_append, bytes]
  omega

/-- **What is written for parts**: whatever follows, it agrees with them exactly if they are
canonical. -/
def Rewrites (written : Bytes) (parts : List BinaryPart) : Prop :=
  ∀ rest rest', written ++ rest = concat parts ++ rest' ↔
    (∀ part ∈ parts, part.IsCanonical) ∧ rest = rest'

namespace Rewrites

variable {written written' : Bytes} {parts parts' : List BinaryPart}

/-- What is written is the same bytes exactly if the parts are canonical. -/
theorem eq_concat_iff (h : Rewrites written parts) :
    written = concat parts ↔ ∀ part ∈ parts, part.IsCanonical := by
  simpa using h [] []

theorem nil : Rewrites [] [] := by
  intro rest rest'
  simp

theorem append (h : Rewrites written parts) (h' : Rewrites written' parts') :
    Rewrites (written ++ written') (parts ++ parts') := by
  intro rest rest'
  rw [List.append_assoc, concat_append, List.append_assoc, h, h', List.forall_mem_append, and_assoc]

theorem plain (bytes : Bytes) : Rewrites bytes [.plain bytes] := by
  intro rest rest'
  simp [BinaryPart.bytes, IsCanonical]

theorem number {groups : Bytes} {n : Nat} (h : Uleb.Denotes groups n) :
    Rewrites (Uleb.encode n) [.number groups] := by
  intro rest rest'
  have hcanonical : (∀ part ∈ [BinaryPart.number groups], part.IsCanonical) ↔
      groups = Uleb.encode n := by
    simpa [IsCanonical] using Uleb.isShortest_iff h
  rw [hcanonical, concat_cons, concat_nil, List.append_nil, BinaryPart.bytes]
  constructor
  · intro heq
    obtain ⟨hsame, -, hrest⟩ := (Uleb.denotes_encode n).append_inj h heq
    exact ⟨hsame.symm, hrest⟩
  · rintro ⟨rfl, rfl⟩
    rfl

theorem truth (b : UInt8) : Rewrites [if (b == 1) = true then 1 else 0] [.truth b] := by
  intro rest rest'
  have hbyte : (if (b == 1) = true then (1 : UInt8) else 0) = b ↔ b = 0 ∨ b = 1 := by
    by_cases hone : b = 1
    · subst hone
      decide
    · rw [if_neg (by simpa using hone)]
      constructor
      · exact fun hzero => .inl hzero.symm
      · rintro (hzero | hsame)
        · exact hzero.symm
        · exact absurd hsame hone
  rw [concat_cons, concat_nil, List.append_nil, BinaryPart.bytes, List.singleton_append,
    List.singleton_append, List.cons.injEq, hbyte]
  simp [IsCanonical]

/-- A string is written back as it was read if its length and its body are canonical. -/
theorem string {count body : Bytes} (h : Uleb.Denotes count body.length) :
    Rewrites (encodeString (Text.decodeText body)) [.number count, .body body] := by
  intro rest rest'
  have hwritten := number (Uleb.denotes_encode (Text.encodeUtf8 (Text.decodeText body)).length)
  have hbody : Text.encodeUtf8 (Text.decodeText body) = body ↔
      (BinaryPart.body body).IsCanonical := Text.encodeUtf8_decodeText_iff
  have hcount : (BinaryPart.number count).IsCanonical ↔ count = Uleb.encode body.length :=
    Uleb.isShortest_iff h
  simp only [encodeString, concat_cons, concat_nil, List.append_nil, List.append_assoc,
    BinaryPart.bytes, List.forall_mem_cons, List.not_mem_nil, false_imp_iff, implies_true, and_true,
    hcount, ← hbody]
  constructor
  · intro heq
    -- the lengths are read alike on both sides, so the bodies end at the same place
    obtain ⟨hgroups, hlength, heq⟩ := (Uleb.denotes_encode _).append_inj h heq
    obtain ⟨hsame, hrest⟩ := List.append_inj heq hlength
    rw [hlength] at hgroups
    exact ⟨⟨hgroups.symm, hsame⟩, hrest⟩
  · rintro ⟨⟨rfl, hsame⟩, rfl⟩
    rw [hsame]

end Rewrites

end BinaryPart

/-! ### Reading parts -/

namespace ByteReader

open BinaryPart

/-- A number is read off the front of the parts. -/
theorem number_concat {groups : Bytes} {n : Nat} (h : Uleb.Denotes groups n)
    (hle : n ≤ greatestNumber) (parts : List BinaryPart) (rest : Bytes) :
    ByteReader.number (concat (.number groups :: parts) ++ rest) = .ok (n, concat parts ++ rest) :=
  number_eq_ok_iff.mpr ⟨groups, h, hle, List.append_assoc ..⟩

variable {α : Type} {item : ByteReader α} {layout : List BinaryPart → α → Prop}

/-- On no more than so many bytes the reader finds what is laid out there, and nothing else. -/
def ReadsWithin (size : Nat) (reader : ByteReader α) (layout : List BinaryPart → α → Prop) : Prop :=
  ∀ bytes a rest, bytes.length ≤ size →
    (reader bytes = .ok (a, rest) ↔ ∃ parts, layout parts a ∧ bytes = concat parts ++ rest)

/-- As many items as are asked for are read if they are laid out one after the other. -/
theorem times_eq_ok_iff {size : Nat} (hitem : ReadsWithin size item layout) {n : Nat}
    {items : List α} {bytes rest : Bytes} (hsize : bytes.length ≤ size) :
    times item n bytes = .ok (items, rest) ↔
      ∃ found : List (List BinaryPart × α), (∀ p ∈ found, layout p.1 p.2) ∧ found.length = n ∧
        found.map Prod.snd = items ∧ bytes = concat (found.map Prod.fst).flatten ++ rest := by
  induction n generalizing bytes items with
  | zero =>
    rw [times, pure_eq_ok_iff]
    constructor
    · rintro ⟨rfl, rfl⟩
      exact ⟨[], by simp, rfl, rfl, rfl⟩
    · rintro ⟨found, -, hlength, rfl, rfl⟩
      obtain rfl := List.length_eq_zero_iff.mp hlength
      exact ⟨rfl, rfl⟩
  | succ n ih =>
    simp only [times, bind_eq_ok_iff, pure_eq_ok_iff]
    constructor
    · rintro ⟨a, mid, ha, others, mid', hothers, rfl, rfl⟩
      -- what the first item leaves is no longer than what it was given
      obtain ⟨parts, hparts, rfl⟩ := (hitem _ _ _ hsize).mp ha
      rw [List.length_append] at hsize
      obtain ⟨found, hfound, rfl, rfl, rfl⟩ := (ih (by omega)).mp hothers
      exact ⟨(parts, a) :: found, List.forall_mem_cons.mpr ⟨hparts, hfound⟩, rfl, rfl, by simp⟩
    · rintro ⟨found, hfound, hlength, rfl, rfl⟩
      cases found with
      | nil => cases hlength
      | cons p found =>
        obtain ⟨hp, hfound⟩ := List.forall_mem_cons.mp hfound
        simp only [List.map_cons, List.flatten_cons, concat_append, List.append_assoc,
          List.length_append] at hsize ⊢
        refine ⟨p.2, _, (hitem _ _ _ (by simpa using hsize)).mpr ⟨p.1, hp, rfl⟩, _, _,
          (ih (by simp; omega)).mpr ⟨found, hfound, Nat.succ.inj hlength, rfl, rfl⟩, rfl, rfl⟩

end ByteReader

end MoveText
