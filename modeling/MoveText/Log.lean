import MoveText.Text

/-!
# Logging

A rejected input is logged as a `LogRecord`. The level of the log is set by a word; any word but
the seven levels, and no word at all, keeps the log silent.
-/

namespace MoveText

/-- What the log holds on a rejected input. -/
structure LogRecord where
  input : Text
  kind : Text
  message : Text
  deriving DecidableEq, Repr

namespace LogRecord

/-- The heading of every record. -/
def heading : Text := "rejected input".toList

end LogRecord

/-- How much is logged. -/
inductive LogLevel where
  | fatal
  | error
  | warn
  | info
  | debug
  | trace
  | silent
  deriving DecidableEq, Repr

namespace LogLevel

/-- Every level. -/
def all : List LogLevel := [fatal, error, warn, info, debug, trace, silent]

/-- The word for a level. -/
def label : LogLevel → Text
  | fatal => "fatal".toList
  | error => "error".toList
  | warn => "warn".toList
  | info => "info".toList
  | debug => "debug".toList
  | trace => "trace".toList
  | silent => "silent".toList

/-- The level that a setting asks for. -/
def ofSetting (setting : Option Text) : LogLevel :=
  (all.find? fun level => some level.label == setting).getD silent

end LogLevel

end MoveText
