import StackProcessor.Log
import StackProcessor.Machine.Snapshot
import StackProcessor.Simulation.Display

/-!
# StackProcessor — events of a run

What happens during a run, as data. A `Transcript` turns `Event`s into log entries (`Event.entry`).
An entry for an output word shows the whole text sent so far, and so the transcript keeps that text
as it goes along (`Transcript.record`). The events of one cycle come in the order input, output,
trace.
-/

namespace StackProcessor

/-- Something that happens during a run. -/
inductive Event where
  /-- The character with this code was taken from the input port. -/
  | input (symbol : Word)
  /-- A word was sent to the output port. -/
  | output (symbol : Word)
  /-- A cycle ended below the debug limit. -/
  | cycle (snapshot : Snapshot)
  /-- A cycle ended at or beyond the debug limit for the first time. -/
  | debugLimit
  /-- No cycle may start any more. -/
  | tickLimit
  /-- The program halted at this tick. -/
  | halted (tick : Nat)
  /-- The input port was read and no character was left. -/
  | inputEmpty
  /-- A cycle was cut short by a fault. -/
  | fault (fault : Fault) (pc tick : Nat)
  /-- The run has ended with this output. -/
  | outputBuffer (output : List Word)
  deriving DecidableEq, Repr

namespace Event

/-- The text of an input character, given by its code; the end mark has none. -/
def renderSymbol (code : Word) : String :=
  if code = 0 then "" else String.singleton (Char.ofNat code.toInt.toNat)

/-- The log entry of an event, where `text` is the output up to and including the event. -/
def entry (text : String) : Event → Log.Entry
  | input symbol => ⟨.debug, s!"input: {renderSymbol symbol}"⟩
  | output symbol => ⟨.debug, s!"output: {text} << {symbol.render}"⟩
  | cycle snapshot => ⟨.debug, snapshot.render⟩
  | debugLimit => ⟨.warn, "Debug limit exceeded!"⟩
  | tickLimit => ⟨.warn, "Limit exceeded!"⟩
  | halted tick => ⟨.warn, s!"Halted at tick {tick}"⟩
  | inputEmpty => ⟨.warn, "Input buffer is empty!"⟩
  | fault cause pc tick => ⟨.error, s!"{cause.message} (pc {pc}, tick {tick})"⟩
  | outputBuffer words => ⟨.info, s!"output_buffer: {Display.renderOutput words}"⟩

/-- The snapshot of a traced cycle. -/
def snapshot? : Event → Option Snapshot
  | cycle snapshot => some snapshot
  | _ => none

/-- The text that an event adds to the output. -/
def addedText : Event → String
  | output symbol => Display.renderWord symbol
  | _ => ""

end Event

/-- The log of a run in the making. -/
structure Transcript where
  /-- The output so far. -/
  text : String
  entries : Array Log.Entry
  deriving Inhabited

namespace Transcript

/-- Writes down one more event. -/
def record (t : Transcript) (e : Event) : Transcript :=
  let text := t.text ++ e.addedText
  ⟨text, t.entries.push (e.entry text)⟩

/-- The log of a sequence of events. -/
def ofEvents (events : Array Event) : Transcript := events.foldl record ⟨"", #[]⟩

end Transcript

end StackProcessor
