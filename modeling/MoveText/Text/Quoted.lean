import MoveText.Text

/-!
# Quoted text

`quoted` writes a text between double quotes. A quote, a backslash and the control characters
below U+0020 are escaped, the five common ones by a letter and the others by four hexadecimal
digits; everything else stands for itself.
-/

namespace MoveText.Text

/-- What one character is written as between quotes. -/
def escapeChar (c : Char) : Text :=
  if c = '"' then ['\\', '"']
  else if c = '\\' then ['\\', '\\']
  else if c = '\x08' then ['\\', 'b']
  else if c = '\x0c' then ['\\', 'f']
  else if c = '\n' then ['\\', 'n']
  else if c = '\r' then ['\\', 'r']
  else if c = '\t' then ['\\', 't']
  else if c.toNat < 0x20 then
    ['\\', 'u', '0', '0', Nat.digitChar (c.toNat / 16), Nat.digitChar (c.toNat % 16)]
  else [c]

/-- The text between double quotes, with escapes. -/
def quoted (s : Text) : Text := '"' :: (s.flatMap escapeChar ++ ['"'])

end MoveText.Text
