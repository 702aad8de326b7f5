/-!
# Text and its UTF-16 length

A `Text` is a list of characters, each of them a Unicode scalar value: a text in which a surrogate
stands without the other half of its pair is not represented. Offsets and widths are counted in
UTF-16 units, the measure `units`: a character below U+10000 counts once, any other twice. `cut?` is
what follows a given offset; an offset between the two units of one character has no such text.
-/

namespace MoveText

/-- A text is the list of its characters. -/
abbrev Text := List Char

namespace Text

/-- The UTF-16 units of one character: two from U+10000 on, else one. -/
def charUnits (c : Char) : Nat := if c.toNat < 0x10000 then 1 else 2

/-- The length of a text in UTF-16 units. -/
def units : Text → Nat
  | [] => 0
  | c :: rest => charUnits c + units rest

/-- What follows the first `n` units. There is nothing to give past the end, nor between the two
units of one character. -/
def cut? : Nat → Text → Option Text
  | 0, s => some s
  | _ + 1, [] => none
  | n + 1, c :: rest => if charUnits c ≤ n + 1 then cut? (n + 1 - charUnits c) rest else none

/-- The text filled up on the left with `fill`, a character of one unit, to `width` units. A text
that is as wide already is kept. -/
def padLeft (width : Nat) (fill : Char) (s : Text) : Text :=
  List.replicate (width - units s) fill ++ s

/-- The parts, with `separator` between neighbours. -/
def join (separator : Text) : List Text → Text
  | [] => []
  | [part] => part
  | part :: parts => part ++ separator ++ join separator parts

theorem join_cons_cons (separator part next : Text) (parts : List Text) :
    join separator (part :: next :: parts) =
      part ++ (separator ++ join separator (next :: parts)) := by
  rw [join, List.append_assoc]
  simp

theorem units_append (s t : Text) : units (s ++ t) = units s + units t := by
  induction s with
  | nil => simp [units]
  | cons c rest ih => simp [units, ih, Nat.add_assoc]

end Text

end MoveText
