import MoveText.Text

/-!
# Character classes

The classes of characters that tokens, names and addresses are made of. All of them hold ASCII
characters alone, as do the classes `Char.isDigit`, `Char.isAlpha` and `Char.isAlphanum` used
beside them.
-/

namespace MoveText.Text

/-- A hexadecimal digit of either case. -/
def isHexDigit (c : Char) : Bool :=
  c.isDigit || ('a' ≤ c && c ≤ 'f') || ('A' ≤ c && c ≤ 'F')

/-- A hexadecimal digit as a normal form writes it. -/
def isLowerHexDigit (c : Char) : Bool :=
  c.isDigit || ('a' ≤ c && c ≤ 'f')

/-- A character that may stand inside a name. -/
def isNameChar (c : Char) : Bool := c == '_' || c.isAlphanum

/-- White space between tokens: space, tab, line feed, form feed and carriage return. -/
def isBlank (c : Char) : Bool :=
  c == ' ' || c == '\t' || c == '\n' || c == '\x0c' || c == '\r'

/-- A character of seven bits. -/
def isAscii (c : Char) : Bool := c.toNat < 0x80

end MoveText.Text
