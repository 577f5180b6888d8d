import StackProcessor.Assembly.Object
import StackProcessor.Tools.Files
import StackProcessor.Tools.Outcome

/-!
# StackProcessor — the assembler as a tool

`sas SOURCE` assembles a source file and writes the image beside it, or to the file that is named.
`Assembler.request` reads the arguments, `Assembler.perform` carries out a `Request`, and
`Assembler.run` is both, with an `Outcome` in every case. The image is written only if the text
assembles, so a text that does not assemble leaves all files as they are.
-/

namespace StackProcessor.Tools.Assembler

/-- What the tool understands. -/
def spec : CommandSpec where
  options := ⟨"output", some 'o', .value fun _ => true⟩ :: verbosityOptions
  operands := 1

/-- How the tool is called. -/
def usage : String := "Usage: sas SOURCE [-o|--output FILE] [-v|--verbose]... [-q|--quiet]..."

/-- Name and version of the tool. -/
def version : String := "sas 0.1.0"

/-- What the tool is asked to do. -/
structure Request where
  source : String
  /-- Where the image goes. -/
  target : String
  level : Option Log.Level
  deriving DecidableEq, Repr

/-- What the arguments ask for. -/
def request (args : List String) : Except Refusal Request := do
  let a ← spec.read args
  let level ← a.level
  match a.operands with
  | source :: _ => return ⟨source, (a.value? "output").getD (withExtension source "o"), level⟩
  | [] => throw (.usage "a source file is required")

/-- The line that sums up the work. -/
def summary (object : Assembly.Object) : String :=
  s!"LoC: {object.lines} Code instr: {object.image.code.length}\n"

variable {m : Type → Type} [Monad m] [FileAccess m]

/-- Assembles a file. -/
def perform (r : Request) : m Outcome := do
  match ← readText r.source with
  | none => return .failure s!"could not read file `{r.source}`" []
  | some source =>
    let assembled := Assembly.assemble source (tracesAssembly r.level)
    let trace := assembled.trace.map fun e => Log.Entry.mk .trace e.message
    match assembled.result with
    | .error e => return .failure e.message ((shown r.level trace).map Log.Entry.render)
    | .ok object =>
      if ← writeText r.target object.image.render then
        let written := Log.Entry.mk .info s!"writing to file `{r.target}`"
        return .success (summary object)
          ((shown r.level (trace ++ [written])).map Log.Entry.render)
      else
        return .failure s!"could not write file `{r.target}`"
          ((shown r.level trace).map Log.Entry.render)

/-- The tool. -/
def run (args : List String) : m Outcome :=
  match request args with
  | .error r => return .refusal usage version r
  | .ok r => perform r

end StackProcessor.Tools.Assembler
