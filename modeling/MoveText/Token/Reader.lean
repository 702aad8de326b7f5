import MoveText.Rejection

/-!
# Reading tokens

A `TokenReader` takes tokens off the front of a list. It answers with a value or a rejection, and
in both cases with the tokens not yet taken, so a reader that fails leaves the place where it
failed. `commaList` reads items between commas up to, and not including, a closing token.
-/

namespace MoveText

/-- A routine on a token list: what it finds, or why it stops, and the tokens it leaves. -/
def TokenReader (α : Type) := List Token → Except Rejection α × List Token

namespace TokenReader

variable {α β : Type}

instance : Monad TokenReader where
  pure a := fun tokens => (.ok a, tokens)
  bind r f := fun tokens =>
    match r tokens with
    | (.ok a, rest) => f a rest
    | (.error rejection, rest) => (.error rejection, rest)

/-- Stops where it stands. -/
def fail (rejection : Rejection) : TokenReader α := fun tokens => (.error rejection, tokens)

/-- Goes on with a value, or stops for the reason given. -/
def ofExcept (result : Except Rejection α) : TokenReader α := fun tokens => (result, tokens)

/-- Takes one token. -/
def next : TokenReader Token
  | [] => (.error .outOfTokens, [])
  | token :: rest => (.ok token, rest)

/-- The token that would be taken next, which stays. -/
def peek : TokenReader (Option Token) := fun tokens => (.ok tokens.head?, tokens)

/-- Whether a particular token would be taken next. -/
def nextIs (token : Token) : TokenReader Bool := fun tokens =>
  (.ok (tokens.head? == some token), tokens)

/-- Takes one token, which has to be the expected one. -/
def expect (expected : Token) : TokenReader Unit := do
  let actual ← next
  if actual = expected then return () else fail (.mismatch expected actual)

/-- The text a token stands for, which it has to have. -/
def textOf (token : Token) : Except Rejection Text :=
  match token.value with
  | some text => .ok text
  | none => .error (.noText token)

/-- Takes a name that is part of a struct type, and gives its text. -/
def structPart : TokenReader (Option Text) := do
  let token ← next
  if token.kind = .name then return token.value else fail (.notAName token)

/-- Takes a name that stands for itself. -/
def stringToken : TokenReader Token := do
  let token ← next
  if token.kind = .name then return token else fail (.unexpected .string token)

/-- The text of a name that stands for itself. -/
def string : TokenReader Text := do return (← stringToken).text

/-- One item at least, and the commas between them. After its last item the list may have one more
comma if `trailing` allows it. Each round but the last takes a comma. -/
def itemsWithin (item : TokenReader α) (stop : Token) (trailing : Bool) :
    Nat → TokenReader (List α)
  | 0 => fail .outOfTokens
  | rounds + 1 => do
    let first ← item
    if ← nextIs stop then return [first]
    expect .comma
    let closes ← nextIs stop
    if trailing && closes then return [first]
    let others ← itemsWithin item stop trailing rounds
    return first :: others

/-- The items up to the token `stop`, which is left in place. If it stands there at once, there are
no items. The rounds allowed are one more than there are tokens, which no list needs. -/
def commaList (item : TokenReader α) (stop : Token) (trailing : Bool) : TokenReader (List α) :=
  fun tokens =>
    if tokens.head? = some stop then (.ok [], tokens)
    else itemsWithin item stop trailing (tokens.length + 1) tokens

end TokenReader

end MoveText
