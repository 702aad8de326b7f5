import MoveText.Text

/-!
# Primitive types

The six types that have no parts. Their order here is their order in binary form.
-/

namespace MoveText

/-- A type without parts. -/
inductive Primitive where
  | bool
  | u8
  | u64
  | u128
  | address
  | signer
  deriving DecidableEq, Repr

namespace Primitive

/-- Every primitive type, in binary order. -/
def all : List Primitive := [bool, u8, u64, u128, address, signer]

/-- The word that names the type. -/
def label : Primitive → Text
  | bool => "bool".toList
  | u8 => "u8".toList
  | u64 => "u64".toList
  | u128 => "u128".toList
  | address => "address".toList
  | signer => "signer".toList

/-- The number of the type in binary form. -/
def index : Primitive → Nat
  | bool => 0
  | u8 => 1
  | u64 => 2
  | u128 => 3
  | address => 4
  | signer => 5

end Primitive

end MoveText
