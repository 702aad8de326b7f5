import MoveText.Argument.Grammar
import MoveText.TypeTag.Grammar

/-!
# Walks over a token list

A walk goes over one list of tokens in steps. A step takes or looks at a single token, or reads an
item of the grammar or a comma list of items. `Walk.run` tells for each step what it finds, or why
it stops, and which tokens are left then. A step that stops leaves off where it has come to, and the
next one goes on from there. Depths and limits are integers; others are not represented.
-/

namespace MoveText.Walk

/-- What can be read from a place in a token list. -/
inductive Item where
  /-- A name that stands for itself. -/
  | string
  /-- A type tag that starts at the given depth. -/
  | typeTag (depth limit : Int)
  /-- An argument. -/
  | argument
  deriving DecidableEq, Repr

/-- What an item turns out to be. A token made by hand can be a name without a text. -/
inductive ItemValue where
  | string (name : Option Text)
  | typeTag (tag : TypeTag)
  | argument (argument : Argument)
  deriving DecidableEq, Repr

/-- The depth of what lies one deeper. Depths are floating-point numbers, so a great one, to which
one cannot be added, stays as it is. -/
def deeper (depth : Int) : Int := (Binary64.ofInt (depth + 1)).truncate

/-- How often a depth can be counted up before it reaches the limit, if that is no more than the
given number of times. -/
def levelsWithin (limit : Int) : Nat → Int → Nat
  | 0, _ => 0
  | most + 1, depth => if limit ≤ depth then 0 else levelsWithin limit most (deeper depth) + 1

/-- Reads a tag that starts at the given depth. Each level takes a token, so there is no need to
count more levels than there are tokens. -/
def readTypeTag (depth limit : Int) : TokenReader TypeTag := fun tokens =>
  if limit ≤ depth then TypeTag.read depth limit tokens
  else TypeTag.readAbove limit (levelsWithin limit (tokens.length + 1) depth) tokens

/-- Reads an item. -/
def Item.read : Item → TokenReader ItemValue
  | string => do return .string (← TokenReader.stringToken).value
  | typeTag depth limit => do return .typeTag (← readTypeTag depth limit)
  | argument => do return .argument (← Argument.read)

/-- One step. -/
inductive Step where
  /-- Takes a token. -/
  | next
  /-- Looks at the token ahead. -/
  | peek
  /-- Whether the given token is ahead. -/
  | nextIs (token : Token)
  /-- Takes a token, which has to be the given one. -/
  | expect (token : Token)
  /-- Reads an item. -/
  | item (sort : Item)
  /-- Reads items between commas, up to the token `stop`. -/
  | commaList (sort : Item) (stop : Token) (trailing : Bool)
  deriving DecidableEq, Repr

/-- What a step finds. -/
inductive Finding where
  | nothing
  | token (token : Token)
  | ahead (token : Option Token)
  | truth (value : Bool)
  | item (value : ItemValue)
  | items (values : List ItemValue)
  deriving DecidableEq, Repr

/-- Goes one step. -/
def Step.read : Step → TokenReader Finding
  | next => do return .token (← TokenReader.next)
  | peek => do return .ahead (← TokenReader.peek)
  | nextIs token => do return .truth (← TokenReader.nextIs token)
  | expect token => do
    TokenReader.expect token
    return .nothing
  | item sort => do return .item (← sort.read)
  | commaList sort stop trailing => do
    return .items (← TokenReader.commaList sort.read stop trailing)

/-- What each step of a walk gives, and the tokens that it leaves. -/
def run : List Step → List Token → List (Except Rejection Finding × List Token)
  | [], _ => []
  | step :: steps, tokens =>
    let outcome := step.read tokens
    outcome :: run steps outcome.2

end MoveText.Walk
