import MoveText.Proofs.TypeTag.Normalized

/-!
# Equal bytes, equal tags

Where the bytes of two tags start at one place they end at one place, and the tags are the same but
for the spelling of their addresses (`TypeTag.encode_append_inj`). The names may be any text and the
lengths any numbers, so this does not follow from reading the bytes back, which loses byte order
marks and gives up on great lengths: it rests on each part of the bytes telling where it ends.
-/

namespace MoveText

variable {rest rest' : Bytes}

/-! ### Parts that tell where they end -/

theorem Uleb.encode_append_inj {m n : Nat} (h : encode m ++ rest = encode n ++ rest') :
    m = n ∧ rest = rest' :=
  ((denotes_encode m).append_inj (denotes_encode n) h).2

theorem Text.encodeUtf8_injective : Function.Injective encodeUtf8 :=
  Function.LeftInverse.injective decodeUtf8_encodeUtf8

theorem encodeString_append_inj {s t : Text}
    (h : encodeString s ++ rest = encodeString t ++ rest') : s = t ∧ rest = rest' := by
  obtain ⟨hlength, hbodies⟩ := Uleb.encode_append_inj (by simpa [encodeString] using h)
  obtain ⟨hbody, hrest⟩ := List.append_inj hbodies hlength
  exact ⟨Text.encodeUtf8_injective hbody, hrest⟩

theorem Address.toBytes_append_inj {s t : Text} (hs : isNormal (normalize s))
    (ht : isNormal (normalize t)) (h : toBytes s ++ rest = toBytes t ++ rest') :
    normalize s = normalize t ∧ rest = rest' := by
  obtain ⟨hbytes, hrest⟩ := List.append_inj h ((length_toBytes hs).trans (length_toBytes ht).symm)
  rw [← ofBytes_toBytes hs, hbytes, ofBytes_toBytes ht]
  exact ⟨rfl, hrest⟩

theorem StructName.encode_append_inj {m n : StructName} (hm : m.HasAddress) (hn : n.HasAddress)
    (h : m.encode ++ rest = n.encode ++ rest') : m.normalize = n.normalize ∧ rest = rest' := by
  simp only [encode, List.append_assoc] at h
  obtain ⟨haddress, h⟩ := Address.toBytes_append_inj hm hn h
  obtain ⟨hmodule, h⟩ := encodeString_append_inj h
  obtain ⟨htype, hrest⟩ := encodeString_append_inj h
  rw [normalize, normalize, haddress, hmodule, htype]
  exact ⟨rfl, hrest⟩

theorem Primitive.index_injective : Function.Injective index := by
  intro p q h
  cases p <;> cases q <;> first | rfl | cases h

private theorem Primitive.index_lt (type : Primitive) : type.index < TypeTag.vectorIndex := by
  cases type <;> decide

/-! ### Tags -/

namespace TypeTag

/-- As many parameters, one after the other, are the same if any two that start at one place are. -/
private theorem encodeAll_append_inj {params params' : List TypeTag}
    (hlength : params.length = params'.length)
    (hsame : ∀ p ∈ params, ∀ p' ∈ params', ∀ tail tail' : Bytes,
      p.encode ++ tail = p'.encode ++ tail' → p.normalize = p'.normalize ∧ tail = tail')
    (h : encodeAll params ++ rest = encodeAll params' ++ rest') :
    params.map normalize = params'.map normalize ∧ rest = rest' := by
  induction params generalizing params' with
  | nil =>
    obtain rfl := List.length_eq_zero_iff.mp hlength.symm
    exact ⟨rfl, h⟩
  | cons p params ih =>
    obtain ⟨p', params', rfl⟩ := List.exists_cons_of_length_eq_add_one hlength.symm
    simp only [encodeAll, List.append_assoc] at h
    obtain ⟨hfirst, h⟩ := hsame p List.mem_cons_self p' List.mem_cons_self _ _ h
    obtain ⟨hothers, hrest⟩ := ih (Nat.succ.inj hlength) (fun q hq q' hq' =>
      hsame q (List.mem_cons_of_mem p hq) q' (List.mem_cons_of_mem p' hq')) h
    rw [List.map_cons, List.map_cons, hfirst, hothers]
    exact ⟨rfl, hrest⟩

/-- The number that the bytes of a tag start with. -/
def variantIndex : TypeTag → Nat
  | primitive type => type.index
  | vector _ => vectorIndex
  | struct _ _ => structIndex

private theorem exists_encode_append_eq (tag : TypeTag) (tail : Bytes) :
    ∃ body, tag.encode ++ tail = Uleb.encode tag.variantIndex ++ body := by
  rcases tag with type | element | ⟨name, params⟩
  · exact ⟨tail, rfl⟩
  · exact ⟨element.encode ++ tail, by rw [encode, List.append_assoc]; rfl⟩
  · exact ⟨_, by rw [encode]; simp only [List.append_assoc]; rfl⟩

/-- Where the bytes of two tags start at one place, these are tags of one sort. -/
private theorem variantIndex_eq_of_encode_append {s t : TypeTag}
    (h : s.encode ++ rest = t.encode ++ rest') : s.variantIndex = t.variantIndex := by
  obtain ⟨_, hs⟩ := s.exists_encode_append_eq rest
  obtain ⟨_, ht⟩ := t.exists_encode_append_eq rest'
  exact (Uleb.encode_append_inj (hs.symm.trans (h.trans ht))).1

/-- **The bytes of a tag tell the tag and where it ends**, whatever follows them. -/
theorem encode_append_inj {s t : TypeTag} (hs : s.AllNames StructName.HasAddress)
    (ht : t.AllNames StructName.HasAddress) (h : s.encode ++ rest = t.encode ++ rest') :
    s.normalize = t.normalize ∧ rest = rest' := by
  induction s using TypeTag.induction generalizing t rest rest' with
  | primitive type =>
    have hindex := variantIndex_eq_of_encode_append h
    cases t with
    | primitive type' =>
      rw [Primitive.index_injective hindex] at h ⊢
      exact ⟨rfl, List.append_cancel_left h⟩
    | vector _ => exact absurd hindex (Nat.ne_of_lt type.index_lt)
    | struct _ _ => exact absurd hindex (Nat.ne_of_lt (Nat.lt_succ_of_lt type.index_lt))
  | vector element ih =>
    have hindex := variantIndex_eq_of_encode_append h
    cases t with
    | primitive type => exact absurd hindex.symm (Nat.ne_of_lt type.index_lt)
    | vector element' =>
      simp only [encode, List.append_assoc] at h
      obtain ⟨helement, hrest⟩ := ih (AllNames.vector_iff.mp hs) (AllNames.vector_iff.mp ht)
        (List.append_cancel_left h)
      rw [normalize, normalize, helement]
      exact ⟨rfl, hrest⟩
    | struct _ _ => exact absurd hindex (by decide : vectorIndex ≠ structIndex)
  | struct name params ih =>
    have hindex := variantIndex_eq_of_encode_append h
    cases t with
    | primitive type =>
      exact absurd hindex.symm (Nat.ne_of_lt (Nat.lt_succ_of_lt type.index_lt))
    | vector _ => exact absurd hindex (by decide : structIndex ≠ vectorIndex)
    | struct name' params' =>
      obtain ⟨hname, hparams⟩ := AllNames.struct_iff.mp hs
      obtain ⟨hname', hparams'⟩ := AllNames.struct_iff.mp ht
      simp only [encode, List.append_assoc] at h
      obtain ⟨hnames, h⟩ := StructName.encode_append_inj hname hname' (List.append_cancel_left h)
      -- the parameters are as many on both sides, so no mark of their end is needed
      obtain ⟨hlength, h⟩ := Uleb.encode_append_inj h
      obtain ⟨htags, hrest⟩ := encodeAll_append_inj hlength (fun p hp p' hp' _ _ =>
        ih p hp (hparams p hp) (hparams' p' hp')) h
      rw [normalize, normalize, hnames, htags]
      exact ⟨rfl, hrest⟩

/-- **Tags have the same bytes exactly if they are the same** with all addresses in normal form. -/
theorem encode_eq_iff {s t : TypeTag} (hs : s.AllNames StructName.HasAddress)
    (ht : t.AllNames StructName.HasAddress) :
    s.encode = t.encode ↔ s.normalize = t.normalize := by
  constructor
  · intro h
    exact (encode_append_inj hs ht (congrArg (· ++ []) h)).1
  · intro h
    rw [← hs.encode_normalize, h, ht.encode_normalize]

end TypeTag

end MoveText
