import MoveText.Text.Capital
import MoveText.Text.CaseIgnorable

/-!
# Lowercasing

`lowercase` maps each capital to its small letter. The small form of the dotted capital I takes two
characters, and that of a sigma depends on where it stands: at the end of a word it is the final
sigma. Every character that is no capital stands for itself.
-/

namespace MoveText.Text

/-- The small form of one character, apart from its neighbours. -/
def lowercaseChar (c : Char) : Text :=
  if c.toNat < 0x80 then [c.toLower]
  else if c = '\u0130' then ['i', '\u0307']
  else
    match smallLetter? c.toNat with
    | some n => [Char.ofNat n]
    | none => [c]

/-- Whether the first character that is not passed over is cased. -/
def startsCased (s : Text) : Bool :=
  match s.dropWhile isCaseIgnorable with
  | [] => false
  | c :: _ => isCased c

/-- The small sigma between two texts, the one before it given from its end: at the end of a word,
where a letter stands before it and none behind it, the final one. -/
def smallSigma (before after : Text) : Char :=
  if startsCased before && !startsCased after then '\u03c2' else '\u03c3'

/-- The rest of a text in small letters, given from its end what stands before it. -/
def lowercaseAfter (before : Text) : Text → Text
  | [] => []
  | c :: rest =>
    if c = '\u03a3' then smallSigma before rest :: lowercaseAfter (c :: before) rest
    else lowercaseChar c ++ lowercaseAfter (c :: before) rest

/-- The text with every letter in its small form. -/
def lowercase (s : Text) : Text := lowercaseAfter [] s

end MoveText.Text
