import StackProcessor.Log
import StackProcessor.Tools.CommandLine
import StackProcessor.Tools.Verbosity

/-!
# StackProcessor — what a tool leaves behind

An `Outcome`: an exit code, a text for standard output and messages for standard error. The code is
`0` if the tool has done its work (`success`), `1` if it could not (`failure`), and `2` if its
arguments were not understood (`refusal`). Which messages are `shown` depends on the level that the
options for `verbosityOptions` ask for.
-/

namespace StackProcessor.Tools

/-- The end of a tool. -/
structure Outcome where
  exitCode : Nat
  output : String
  /-- What is told of the work, in order. -/
  messages : List String
  deriving DecidableEq, Repr, Inhabited

namespace Outcome

/-- The tool has done its work. -/
def success (output : String) (messages : List String) : Outcome := ⟨0, output, messages⟩

/-- The tool could not do its work. -/
def failure (cause : String) (messages : List String) : Outcome :=
  ⟨1, "", messages ++ ["Error: " ++ cause]⟩

/-- There was nothing to do. -/
def refusal (usage version : String) : Refusal → Outcome
  | .usage message => ⟨2, "", ["error: " ++ message, usage]⟩
  | .help => ⟨0, usage ++ "\n", []⟩
  | .version => ⟨0, version ++ "\n", []⟩

end Outcome

/-- The options that say how much a tool tells. -/
def verbosityOptions : List OptionSpec :=
  [⟨"verbose", some 'v', .counted⟩, ⟨"quiet", some 'q', .counted⟩]

/-- The level that the arguments ask for. It makes no sense to ask for more and for less. -/
def Arguments.level (a : Arguments) : Except Refusal (Option Log.Level) :=
  let verbose := a.count "verbose"
  let quiet := a.count "quiet"
  if verbose ≠ 0 ∧ quiet ≠ 0 then
    .error (.usage "the argument '--verbose' cannot be used with '--quiet'")
  else .ok (verbosityLevel verbose quiet)

/-- The entries that are shown at a level. -/
def shown (level : Option Log.Level) (entries : List Log.Entry) : List Log.Entry :=
  entries.filter fun e => (threshold level).shows e.level

end StackProcessor.Tools
