import MoveText.Argument.Grammar
import MoveText.Log
import MoveText.Options
import MoveText.Token.Lexeme
import MoveText.TypeTag.Grammar

/-!
# Parsing texts

The entry points read a whole text: a type tag, a struct type, an argument, or a comma list of tags,
arguments or names, to which one last comma may be added. An `Outcome` is what an entry point gives
and what it logs. Bad options are reported as they are and never logged; a rejected input is logged
once. For a struct type the rejection is wrapped in one that quotes the input, and the log holds
the inner one; a tag of another sort is rejected, and logged, as no struct type.
-/

namespace MoveText

/-- Why an entry point gives no value. -/
inductive Failure where
  /-- The options are not valid. -/
  | badOptions (fault : OptionsFault)
  /-- The input is turned down. -/
  | rejected (rejection : Rejection)
  /-- The input of which a struct type was wanted is turned down. -/
  | badStructTag (input : Text) (cause : Rejection)
  /-- The input is a type tag, but not that of a struct type. -/
  | notAStructTag (input : Text)
  deriving Repr

namespace Failure

/-- The name of the sort of a failure. -/
def label : Failure → Text
  | badOptions .unshowable => "TypeError".toList
  | badOptions _ => "InvalidParserOptionsError".toList
  | rejected rejection => rejection.category.label
  | badStructTag .. | notAStructTag _ => "InvalidStructTagError".toList

/-- The wording of a failure. -/
def message : Failure → Text
  | badOptions fault => "Invalid parser options: ".toList ++ fault.message
  | rejected rejection => rejection.message
  | badStructTag input cause =>
    "invalid struct tag: ".toList ++ input ++ ", ".toList ++ cause.message
  | notAStructTag input => "invalid struct tag: ".toList ++ input

/-- The log record of a failure on the given input. -/
def logRecord (input : Text) (failure : Failure) : LogRecord :=
  ⟨input, failure.label, failure.message⟩

end Failure

/-- What an entry point gives, and what it logs. -/
structure Outcome (ε α : Type) where
  result : Except ε α
  log : List LogRecord

/-- Reads a text to its end. -/
def TokenReader.readText {α : Type} (reader : TokenReader α) (input : Text) :
    Except Rejection α := do
  let tokens ← Token.wordsOfText input
  let whole : TokenReader α := do
    let value ← reader
    TokenReader.expect .eof
    return value
  (whole tokens).1

namespace Outcome

/-- What comes of reading a text to its end. -/
def ofReader {α : Type} (reader : TokenReader α) (input : Text) : Outcome Failure α :=
  match reader.readText input with
  | .ok value => ⟨.ok value, []⟩
  | .error rejection =>
    let failure := Failure.rejected rejection
    ⟨.error failure, if rejection.concernsInput then [failure.logRecord input] else []⟩

/-- What comes of an activity under the options that a caller gives. -/
def underOptions {α : Type} (options : Option Value) (activity : Options → Outcome Failure α) :
    Outcome Failure α :=
  match Options.resolve options with
  | .error fault => ⟨.error (.badOptions fault), []⟩
  | .ok resolved => activity resolved

end Outcome

namespace TypeTag

/-- The type tag that a text denotes. -/
def parse (options : Option Value) (input : Text) : Outcome Failure TypeTag :=
  Outcome.underOptions options fun resolved =>
    Outcome.ofReader (read 0 resolved.maxNesting) input

/-- The type tags that a text lists. -/
def parseList (options : Option Value) (input : Text) : Outcome Failure (List TypeTag) :=
  Outcome.underOptions options fun resolved =>
    Outcome.ofReader (TokenReader.commaList (read 0 resolved.maxNesting) .eof true) input

end TypeTag

namespace StructTag

/-- The struct type that a text denotes. -/
def parse (options : Option Value) (input : Text) : Outcome Failure StructTag :=
  match TypeTag.parse options input with
  | ⟨.ok (.struct name params), log⟩ => ⟨.ok ⟨name, params⟩, log⟩
  | ⟨.ok _, log⟩ =>
    let failure := Failure.notAStructTag input
    ⟨.error failure, log ++ [failure.logRecord input]⟩
  | ⟨.error (.rejected rejection), log⟩ =>
    if rejection.concernsInput then ⟨.error (.badStructTag input rejection), log⟩
    else ⟨.error (.rejected rejection), log⟩
  | ⟨.error failure, log⟩ => ⟨.error failure, log⟩

end StructTag

namespace Argument

/-- The argument that a text denotes. -/
def parse (input : Text) : Outcome Failure Argument := Outcome.ofReader read input

/-- The arguments that a text lists. -/
def parseList (input : Text) : Outcome Failure (List Argument) :=
  Outcome.ofReader (TokenReader.commaList read .eof true) input

end Argument

namespace Identifier

/-- The names that a text lists. -/
def parseList (input : Text) : Outcome Failure (List Text) :=
  Outcome.ofReader (TokenReader.commaList TokenReader.string .eof true) input

end Identifier

end MoveText
