import StackProcessor.Assembly.Object
import StackProcessor.Image.Reader
import StackProcessor.Simulation.Session
import StackProcessor.Tools.Files
import StackProcessor.Tools.Outcome

/-!
# StackProcessor — the simulator as a tool

`ssim CODE_FILE [INPUT_FILE]` runs an image, or assembles a source text first, and prints the output
of the program with the length of the run. `Simulator.request` reads the arguments; the three bounds
of a run are numbers of 64 bits (`isCount`), and a bound that is not given has the default of
`Options`. `Simulator.program` makes an image of the text in the code file, and from there on a
request for an image and a request for a source text go the same way (`loadAndRun`).
-/

namespace StackProcessor.Tools.Simulator

/-- Whether a value is a number of 64 bits. -/
def isCount (s : String) : Bool := (count? s).isSome

/-- What the tool understands. -/
def spec : CommandSpec where
  options :=
    ⟨"stack-size", none, .value isCount⟩ :: ⟨"debug-limit", none, .value isCount⟩
      :: ⟨"limit", none, .value isCount⟩ :: ⟨"asm", none, .switch⟩
      :: ⟨"log-file", none, .value fun _ => true⟩ :: verbosityOptions
  operands := 2

/-- How the tool is called. -/
def usage : String :=
  "Usage: ssim CODE_FILE [INPUT_FILE] [--stack-size N] [--debug-limit N] [--limit N] [--asm] "
    ++ "[--log-file FILE] [-v|--verbose]... [-q|--quiet]..."

/-- Name and version of the tool. -/
def version : String := "ssim 0.1.0"

/-- What the tool is asked to do. -/
structure Request where
  code : String
  input : Option String
  /-- Whether the code file holds a source text. -/
  isSource : Bool
  logFile : Option String
  options : Options
  level : Option Log.Level
  deriving DecidableEq, Repr

/-- The number that an option gives, or the usual one. -/
def countOr (a : Arguments) (name : String) (usual : Nat) : Nat :=
  ((a.value? name).bind count?).getD usual

/-- What the arguments ask for. -/
def request (args : List String) : Except Refusal Request := do
  let a ← spec.read args
  let level ← a.level
  let usual : Options := {}
  let options : Options :=
    { stackSize := countOr a "stack-size" usual.stackSize
      debugLimit := countOr a "debug-limit" usual.debugLimit
      tickLimit := countOr a "limit" usual.tickLimit }
  match a.operands with
  | code :: rest =>
    return { code, input := rest.head?, isSource := a.count "asm" ≠ 0,
             logFile := a.value? "log-file", options, level }
  | [] => throw (.usage "a code file is required")

/-- What a text in the code file stands for, and what is told about it. -/
def program (r : Request) (text : String) : Except String Image × List Log.Entry :=
  if r.isSource then
    let assembled := Assembly.assemble text (tracesAssembly r.level)
    let trace := assembled.trace.map fun e => Log.Entry.mk .trace e.message
    match assembled.result with
    | .ok object => (.ok object.image, trace)
    | .error e => (.error e.message, trace)
  else
    match Image.ofText text with
    | .ok image => (.ok image, [])
    | .error f => (.error s!"could not load `{r.code}`: {f.message}", [])

/-- What the tool prints after a run. -/
def summary (report : Report) : String :=
  s!"{report.text}\nInstructions: {report.instructions} Ticks: {report.ticks}\n"

/-- A log entry as a line of a log file. -/
def logLine (e : Log.Entry) : String :=
  (Json.object [("level", .string e.level.name), ("message", .string e.message)]).render ++ "\n"

/-- A result that is to be reported, with what is told about it. -/
structure Ending where
  result : Except String Report
  entries : List Log.Entry

/-- Runs a program on the characters of an input file. -/
def simulateOn (r : Request) (image : Image) (input : Option String)
    (entries : List Log.Entry) : Ending :=
  let run := simulate image (Display.inputQueue input) r.options
  let entries := entries ++ ⟨.info, "Start simulation"⟩ :: run.log
  match run.result with
  | .ok report =>
    ⟨.ok report, entries ++ [⟨.info, s!"End simulation ({report.stop.message})"⟩]⟩
  | .error fault => ⟨.error s!"simulation of `{r.code}` aborted: {fault.message}", entries⟩

variable {m : Type → Type} [Monad m] [FileAccess m]

/-- The text at the input port, if it can be read: there is none without an input file. -/
def readInput (r : Request) : m (Except String (Option String)) := do
  match r.input with
  | none => return .ok none
  | some path =>
    match ← readText path with
    | some text => return .ok (some text)
    | none => return .error s!"could not read file `{path}`"

/-- Loads and runs the program. -/
def loadAndRun (r : Request) : m Ending := do
  match ← readText r.code with
  | none => return ⟨.error s!"could not read file `{r.code}`", []⟩
  | some text =>
    match program r text with
    | (.error cause, entries) => return ⟨.error cause, entries⟩
    | (.ok image, entries) =>
      match ← readInput r with
      | .error cause => return ⟨.error cause, entries⟩
      | .ok input => return simulateOn r image input entries

/-- Ends the tool. -/
def conclude (r : Request) (e : Ending) : Outcome :=
  let messages := (shown r.level e.entries).map Log.Entry.render
  match e.result with
  | .ok report => .success (summary report) messages
  | .error cause => .failure cause messages

/-- Runs a program. A log file is emptied first, and filled when the run is over. -/
def perform (r : Request) : m Outcome := do
  match r.logFile with
  | none => return conclude r (← loadAndRun r)
  | some path =>
    if ← writeText path "" then
      let ending ← loadAndRun r
      let _ ← writeText path (String.join ((shown r.level ending.entries).map logLine))
      return conclude r ending
    else return .failure s!"could not create log file `{path}`" []

/-- The tool. -/
def run (args : List String) : m Outcome :=
  match request args with
  | .error r => return .refusal usage version r
  | .ok r => perform r

end StackProcessor.Tools.Simulator
