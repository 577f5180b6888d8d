import StackProcessor.Tools.Assembler
import StackProcessor.Tools.Simulator

/-!
# StackProcessor — the program

The two tools on the files of the disk, which is the second instance of `FileAccess`. The first
argument names the tool; what it leaves behind is an `Outcome`, and printing it is all that is done
here.
-/

open StackProcessor.Tools

instance : FileAccess IO where
  read path := do
    match ← (IO.FS.readBinFile path).toBaseIO with
    | .ok bytes => return some bytes
    | .error _ => return none
  write path contents := do
    match ← (IO.FS.writeBinFile path contents).toBaseIO with
    | .ok _ => return true
    | .error _ => return false

/-- Prints what a tool leaves behind. -/
def StackProcessor.Tools.Outcome.report (o : Outcome) : IO UInt32 := do
  IO.print o.output
  for message in o.messages do
    IO.eprintln message
  return o.exitCode.toUInt32

def main (args : List String) : IO UInt32 := do
  match args with
  | "sas" :: rest => (← Assembler.run rest).report
  | "ssim" :: rest => (← Simulator.run rest).report
  | _ =>
    IO.eprintln Assembler.usage
    IO.eprintln Simulator.usage
    return 2
