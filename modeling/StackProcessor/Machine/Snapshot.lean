import StackProcessor.Machine.Processor
import StackProcessor.Text.Column

/-!
# StackProcessor — snapshots

A `Snapshot` holds the registers after a cycle, as a trace shows them, with the first
`Snapshot.windowSize` cells of the stack, in use or not. `Snapshot.render` is one line of a trace.
It has columns of a least width (`Text.flushLeft`, `Text.flushRight`), in which a value that is too
wide is written in full, and a top of the stack that is not negative shows a blank in the place of
its sign.
-/

namespace StackProcessor

/-- What a trace shows of the machine. -/
structure Snapshot where
  tick : Nat
  /-- The opcode in the instruction register. -/
  opcode : Option Opcode
  pc : Nat
  address : Word
  stackPointer : Int
  top : Option Word
  /-- The lowest cells of the stack. -/
  window : List Word
  deriving DecidableEq, Repr, Inhabited

namespace Snapshot

/-- Number of stack cells in a trace line. -/
def windowSize : Nat := 5

/-- The top of the stack with room for its sign. -/
def renderTop : Option Word → String
  | none => "-"
  | some w => if 0 ≤ w then " " ++ w.render else w.render

/-- The trace line. Each register has a column of fixed width, which grows where the number is
wider; a register that is empty and the top of an empty stack are shown as `-`. -/
def render (s : Snapshot) : String :=
  let opcode := (s.opcode.map Opcode.name).getD "-"
  s!"TICK: {Text.flushRight 4 (toString s.tick)} {Text.flushLeft 10 opcode} "
    ++ s!"PC: {Text.flushRight 3 (toString s.pc)} "
    ++ s!"DA: {Text.flushRight 3 s.address.render} "
    ++ s!"SP: {Text.flushRight 2 (toString s.stackPointer)} "
    ++ s!"TOS: {Text.flushRight 3 (renderTop s.top)} "
    ++ s!"Stack: {Word.renderList s.window}"

end Snapshot

/-- The registers of the processor as they stand. -/
def Processor.snapshot (p : Processor) : Snapshot where
  tick := p.tick
  opcode := p.register.map Instruction.opcode
  pc := p.pc
  address := p.datapath.address
  stackPointer := p.datapath.stackPointer
  top := p.datapath.top?
  window := (p.datapath.stack.extract 0 Snapshot.windowSize).toList

end StackProcessor
