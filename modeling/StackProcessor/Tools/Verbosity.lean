import StackProcessor.Log

/-!
# StackProcessor — verbosity

How much a tool tells. Without options it asks for errors; each `verbose` asks for one level more,
each `quiet` for one less, and below errors it asks for nothing (`verbosityLevel`). What is shown is
one level more than what is asked for (`threshold`), as the end of a run is reported as a warning.
Only at the last level does the assembler tell of its work (`tracesAssembly`).
-/

namespace StackProcessor.Tools

/-- The level that a number of `verbose` and a number of `quiet` options ask for. -/
def verbosityLevel (verbose quiet : Nat) : Option Log.Level :=
  if verbose < quiet then none
  else
    match verbose - quiet with
    | 0 => some .error
    | 1 => some .warn
    | 2 => some .info
    | 3 => some .debug
    | _ => some .trace

/-- The least important level that is shown. -/
def threshold : Option Log.Level → Log.Level
  | none => .error
  | some .error => .warn
  | some .warn => .info
  | some .info => .debug
  | some .debug => .trace
  | some .trace => .trace

/-- Whether the assembler is to tell of its work. -/
def tracesAssembly (level : Option Log.Level) : Bool := level == some .trace

end StackProcessor.Tools
