import StackProcessor.Machine.Fault
import StackProcessor.Simulation.Display

/-!
# StackProcessor — reports

What a run is asked to keep to, its `Options`, and what it yields: a `Report`, or a `RunFault`.

The machine keeps all these numbers in 64 bits without a sign, `stackSize` among them; here they are
natural numbers. So a request that the machine can be given has `stackSize`, `debugLimit` and
`tickLimit` below `2 ^ 64`, as `Tools.count?` sees to on the command line, and what is said of
larger `Options` says nothing of the machine. The last cycle of a run may pass `tickLimit` by three
ticks, so that up to the limit `2 ^ 64 - 4` no clock of 64 bits overflows.
-/

namespace StackProcessor

/-- The bounds of a run, each a number below `2 ^ 64` where the machine is asked to keep to it. -/
structure Options where
  /-- Stack capacity in cells. -/
  stackSize : Nat := 10
  /-- Cycles that end below this tick are traced. -/
  debugLimit : Nat := 200
  /-- No cycle starts at this tick or later. -/
  tickLimit : Nat := 100000
  deriving DecidableEq, Repr, Inhabited

/-- Why a run ended without a fault. -/
inductive StopReason where
  | halted
  | inputExhausted
  | tickLimitExceeded
  deriving DecidableEq, Repr, Inhabited

/-- The reason in words. -/
def StopReason.message : StopReason → String
  | halted => "halted"
  | inputExhausted => "input exhausted"
  | tickLimitExceeded => "tick limit exceeded"

/-- The result of a run. -/
structure Report where
  output : List Word
  /-- Cycles started, also the one that ended the run. -/
  instructions : Nat
  ticks : Nat
  stop : StopReason
  deriving DecidableEq, Repr, Inhabited

/-- The output as text. -/
def Report.text (r : Report) : String := Display.renderOutput r.output

/-- Why there is no report. -/
inductive RunFault where
  /-- A stack without cells was asked for. -/
  | emptyStack
  | fault (fault : Fault)
  deriving DecidableEq, Repr

/-- The fault in words. -/
def RunFault.message : RunFault → String
  | emptyStack => "invalid option: stack size must be positive"
  | fault cause => cause.message

end StackProcessor
