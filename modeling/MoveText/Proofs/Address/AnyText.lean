import Mathlib.Data.List.DropRight
import MoveText.Proofs.Address.Literal
import MoveText.Proofs.Text.Lowercase

/-!
# Normal and short forms of any text

Normal and short forms are made of any text, whether or not it denotes an address. Both forms have
the digits of the text that they are made of, so making either of them twice changes nothing, and
the short form of the normal form is the short form (`normalize_normalize`, `shorten_normalize`,
`shorten_shorten`). The digits may themselves start with what looks like a marker, but only one
marker is ever dropped, and lowercasing keeps what it has left before.
-/

namespace MoveText

namespace Text

private theorem units_replicate (count : Nat) {c : Char} (hc : charUnits c = 1) :
    units (List.replicate count c) = count := by
  induction count with
  | zero => rfl
  | succ count ih => rw [List.replicate_succ, units, hc, ih, Nat.add_comm]

/-- A text that is wide enough is kept. -/
private theorem padLeft_of_le {width : Nat} {fill : Char} {s : Text} (h : width ≤ units s) :
    padLeft width fill s = s := by
  rw [padLeft, Nat.sub_eq_zero_of_le h, List.replicate_zero, List.nil_append]

/-- What is filled up is wide enough. -/
private theorem le_units_padLeft (width : Nat) {fill : Char} (hfill : charUnits fill = 1)
    (s : Text) : width ≤ units (padLeft width fill s) := by
  rw [padLeft, units_append, units_replicate _ hfill]
  omega

end Text

namespace Address

private theorem dropMarker_suffix (s : Text) : dropMarker s <:+ s := by
  unfold dropMarker
  split
  · exact (List.suffix_cons ..).trans (List.suffix_cons ..)
  · exact List.suffix_refl s

/-- The digits of any text are settled: zeros, and what lowercasing has left. -/
private theorem isSettled_of_mem_normalDigits {s : Text} {c : Char} (hc : c ∈ normalDigits s) :
    Text.IsSettled c := by
  rcases List.mem_append.mp hc with hc | hc
  · rw [List.eq_of_mem_replicate hc]
    exact Text.isSettled_of_isAscii (c := '0') (by decide)
  · exact Text.isSettled_of_mem_lowercase ((dropMarker_suffix _).subset hc)

/-- Behind a marker, settled text is filled up as it is. -/
private theorem normalDigits_marked {digits : Text} (hdigits : ∀ c ∈ digits, Text.IsSettled c) :
    normalDigits ('0' :: 'x' :: digits) = Text.padLeft digitCount '0' digits := by
  have hsettled : ∀ c ∈ '0' :: 'x' :: digits, Text.IsSettled c :=
    List.forall_mem_cons.mpr ⟨Text.isSettled_of_isAscii (c := '0') (by decide),
      List.forall_mem_cons.mpr ⟨Text.isSettled_of_isAscii (c := 'x') (by decide), hdigits⟩⟩
  rw [normalDigits, Text.lowercase_of_isSettled hsettled, dropMarker]

/-! ### Forms of forms -/

/-- **A text and its normal form have the same digits.** -/
theorem normalDigits_normalize (s : Text) : normalDigits (normalize s) = normalDigits s := by
  have hwide : digitCount ≤ Text.units (normalDigits s) := Text.le_units_padLeft _ (by decide) _
  rw [normalize, normalDigits_marked fun _ => isSettled_of_mem_normalDigits,
    Text.padLeft_of_le hwide]

theorem normalize_normalize (s : Text) : normalize (normalize s) = normalize s := by
  rw [normalize, normalDigits_normalize, normalize]

/-- A text and its normal form have the same bytes. -/
theorem toBytes_normalize (s : Text) : toBytes (normalize s) = toBytes s := by
  rw [toBytes, normalDigits_normalize, toBytes]

/-- A text and its normal form have the same short form. -/
theorem shorten_normalize (s : Text) : shorten (normalize s) = shorten s := by
  rw [shorten, normalDigits_normalize, shorten]

/-- **A text and its short form have the same digits** but for the zeros in front. -/
theorem dropWhile_normalDigits_shorten (s : Text) :
    (normalDigits (shorten s)).dropWhile (· == '0') =
      (normalDigits s).dropWhile (· == '0') := by
  generalize hshown : (normalDigits s).dropWhile (· == '0') = shown
  rw [shorten, hshown]
  cases shown with
  | nil => rfl
  | cons c shown =>
    have hsettled : ∀ d ∈ c :: shown, Text.IsSettled d := by
      rw [← hshown]
      exact fun d hd => isSettled_of_mem_normalDigits ((List.dropWhile_suffix _).subset hd)
    rw [normalDigits_marked hsettled, Text.padLeft, List.dropWhile_append_of_pos (by simp),
      ← hshown, List.dropWhile_idempotent]

theorem shorten_shorten (s : Text) : shorten (shorten s) = shorten s := by
  rw [shorten, dropWhile_normalDigits_shorten, ← shorten]

end Address

end MoveText
