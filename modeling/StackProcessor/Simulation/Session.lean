import StackProcessor.Simulation.Event
import StackProcessor.Simulation.Report

/-!
# StackProcessor — runs

`simulate` starts instruction cycles until the program halts, the input is exhausted, a fault occurs
or the clock has reached `tickLimit`. It yields a `Run`: a `Report` or a `RunFault`, and the events
along the way. A `Session` is a run in the making, between two cycles.

The limit is looked at between cycles only, so the last cycle may end beyond it. A cycle that is
interrupted counts as an instruction and has no `cycleEvents`; its events are those of the end of
the run (`Session.finish`, `Session.interrupt`). Whether a completed cycle took a character or sent
a word is read off the registers it left (`received?`, `sent?`).

The loop `Session.run` ends because a completed cycle moves the clock forward
(`Processor.tick_lt_of_cycle`): `tickLimit - tick` becomes smaller each time.
-/

namespace StackProcessor

/-- A run that is over. -/
structure Run where
  events : Array Event
  result : Except RunFault Report

/-- The log of the run. -/
def Run.log (r : Run) : List Log.Entry := (Transcript.ofEvents r.events).entries.toList

/-- The snapshots of the traced cycles. -/
def Run.trace (r : Run) : List Snapshot := r.events.toList.filterMap Event.snapshot?

/-! ## What a completed cycle shows -/

/-- Whether the last completed cycle was of this opcode and went to this address. -/
def Processor.hasAccessed (p : Processor) (opcode : Opcode) (address : Word) : Bool :=
  p.register.map Instruction.opcode == some opcode && p.datapath.address == address

/-- The code of the character that the last completed cycle took: a load from the input port leaves
it on top of the stack. -/
def Processor.received? (p : Processor) : Option Word :=
  if p.hasAccessed .load Word.inputPort then p.datapath.top? else none

/-- The word that the last completed cycle sent. -/
def Processor.sent? (p : Processor) : Option Word :=
  if p.hasAccessed .pop Word.outputPort then p.datapath.output.back? else none

/-! ## Sessions -/

/-- A run in the making. -/
structure Session where
  processor : Processor
  /-- Cycles started. -/
  instructions : Nat
  /-- Whether the debug limit has been reported. -/
  debugWarned : Bool
  events : Array Event

namespace Session

/-- The session before the first cycle. -/
def initial (image : Image) (input : List Char) (options : Options) : Session where
  processor := Processor.initial image options.stackSize input
  instructions := 0
  debugWarned := false
  events := #[]

/-- What a completed cycle adds to the trace: a snapshot below the debug limit, and one warning
beyond it. -/
def traceEvent? (options : Options) (warned : Bool) (p : Processor) : Option Event :=
  if p.tick < options.debugLimit then some (.cycle p.snapshot)
  else if warned then none
  else some .debugLimit

/-- The events of a completed cycle, in the order in which they are logged. -/
def cycleEvents (options : Options) (warned : Bool) (p : Processor) : List Event :=
  (p.received?.map Event.input).toList ++ (p.sent?.map Event.output).toList
    ++ (traceEvent? options warned p).toList

/-- The end of a run without a fault: the report, and behind the event that tells of the end the
whole output. -/
def finish (p : Processor) (instructions : Nat) (events : Array Event) (stop : StopReason)
    (last : Event) : Run :=
  let output := p.datapath.output.toList
  { events := (events.push last).push (.outputBuffer output)
    result := .ok ⟨output, instructions, p.tick, stop⟩ }

/-- The end of a run in which a cycle was cut short. The fault is told with the counter and the
clock of the state in which the cycle stopped. -/
def interrupt (p : Processor) (instructions : Nat) (events : Array Event) : Interrupt → Run
  | .halt => finish p instructions events .halted (.halted p.tick)
  | .inputExhausted => finish p instructions events .inputExhausted .inputEmpty
  | .fault cause =>
    { events := events.push (.fault cause p.pc p.tick)
      result := .error (.fault cause) }

/-- Runs a session to its end. The limit is looked at first, then a cycle is started; a cycle that
completes is counted and recorded before the limit is looked at again. -/
def run (options : Options) (s : Session) : Run :=
  match s with
  | ⟨processor, instructions, warned, events⟩ =>
    -- the limit is looked at between cycles only, so the last one may end beyond it
    if options.tickLimit ≤ processor.tick then
      finish processor instructions events .tickLimitExceeded .tickLimit
    else
      match h : processor.cycle with
      | .completed p =>
        run options
          { processor := p
            instructions := instructions + 1
            debugWarned := warned || options.debugLimit ≤ p.tick
            events := events ++ cycleEvents options warned p }
      | .interrupted p cause => interrupt p (instructions + 1) events cause
termination_by options.tickLimit - s.processor.tick
decreasing_by
  have hlt := Processor.tick_lt_of_cycle h
  omega

end Session

/-- Runs a program on the given input characters. Without a stack cell there is no run, and nothing
is recorded. -/
def simulate (image : Image) (input : List Char) (options : Options) : Run :=
  if options.stackSize = 0 then ⟨#[], .error .emptyStack⟩
  else (Session.initial image input options).run options

end StackProcessor
