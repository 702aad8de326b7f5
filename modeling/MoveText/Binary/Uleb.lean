import MoveText.Text.Hex

/-!
# Variable-length numbers

A number is written in groups of seven bits, the lowest first; every byte but the last has its
highest bit set. `Uleb.encode` writes the fewest groups, while `Uleb.decode?` reads any number of
them, so that a number may have trailing groups of zeros.
-/

namespace MoveText.Uleb

/-- The fewest groups that hold the number. -/
def encode (n : Nat) : Bytes :=
  if n < 128 then [UInt8.ofNat n] else UInt8.ofNat (n % 128 + 128) :: encode (n / 128)

/-- The number at the front of the bytes, and what follows it; none if the bytes end within it. -/
def decode? : Bytes → Option (Nat × Bytes)
  | [] => none
  | b :: rest =>
    if b.toNat < 128 then some (b.toNat, rest)
    else (decode? rest).map fun (high, rest) => (b.toNat - 128 + 128 * high, rest)

end MoveText.Uleb
