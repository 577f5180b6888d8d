/-!
# StackProcessor — log entries

A log is a list of `Entry`s, messages with a `Level` of importance. A threshold `shows` the entries
that are at least as important as it is, by `Level.rank`.
-/

namespace StackProcessor.Log

/-- How important a message is, the most important level first. -/
inductive Level where
  | error
  | warn
  | info
  | debug
  | trace
  deriving DecidableEq, Repr, Inhabited

namespace Level

/-- Position in the order of importance, `0` for the most important level. -/
def rank : Level → Nat
  | error => 0
  | warn => 1
  | info => 2
  | debug => 3
  | trace => 4

/-- The level in capitals, as log lines show it. -/
def name : Level → String
  | error => "ERROR"
  | warn => "WARN"
  | info => "INFO"
  | debug => "DEBUG"
  | trace => "TRACE"

/-- Whether a log with this threshold shows messages of the given level. -/
def shows (threshold level : Level) : Bool := level.rank ≤ threshold.rank

end Level

/-- One message. -/
structure Entry where
  level : Level
  message : String
  deriving DecidableEq, Repr, Inhabited

/-- Level and message on one line. -/
def Entry.render (e : Entry) : String := s!"{e.level.name} {e.message}"

end StackProcessor.Log
