import StackProcessor.Machine.Datapath

/-!
# StackProcessor — microcode

`Operation.microcode` is what the control unit does for an operation, as data: a list of `Step`s,
each of which drives one `Signal`, lets one tick pass or changes the program counter. Fetching takes
a tick of its own before the first step, and the last step of every operation but `halt` is the tick
that closes the cycle. Signals between two ticks happen in the same tick.

## Results
- `Operation.cost_eq_ticks` : the table `Operation.cost` gives one tick more than the ticks in the
  microcode, which is `Operation.ticks`.
- `Operation.ticks_le_four` : no cycle takes more than four ticks.
-/

namespace StackProcessor

/-- One step of the control unit. -/
inductive Step where
  | drive (signal : Signal)
  | tick
  /-- Continue at this instruction. -/
  | jump (target : Nat)
  /-- Continue there if the top of the stack is zero. -/
  | branch (target : Nat)
  | halt
  deriving DecidableEq, Repr

namespace Operation

/-- The steps that follow the fetch. -/
def microcode : Operation → List Step
  | halt => [.halt]
  | jump target => [.jump target, .tick]
  | jz target => [.branch target, .tick]
  | push value => [.drive (.moveStack .up), .tick, .drive (.latchTop (.literal value)), .tick]
  -- the pointer moves first, so that the old top is the second cell
  | dup => [.drive (.moveStack .up), .tick, .drive (.latchTop .second), .tick]
  | push2 value =>
    [.drive (.moveStack .up), .tick, .drive (.latchTop .second), .tick,
      .drive (.latchSecond (.literal value)), .tick]
  | pop =>
    [.drive (.latchAddress .second), .tick, .drive .store, .drive (.moveStack .downTwo), .tick]
  | load => [.drive (.latchAddress .top), .tick, .drive (.latchTop .memory), .tick]
  | drop => [.drive (.moveStack .down), .tick]
  | inc => [.drive (.latchTop .increment), .tick]
  -- the result goes below the top, which is then dropped
  | alu op => [.drive (.latchSecond (.alu op)), .drive (.moveStack .down), .tick]

/-- The ticks of a cycle that is carried out in full: one for the fetch, and those of the steps. -/
def ticks (op : Operation) : Nat := 1 + op.microcode.count .tick

/-- The length of a cycle in ticks, by operation. -/
def cost : Operation → Nat
  | halt => 1
  | jump _ | jz _ | drop | inc | alu _ => 2
  | push _ | dup | pop | load => 3
  | push2 _ => 4

theorem cost_eq_ticks (op : Operation) : op.cost = op.ticks := by
  cases op <;> rfl

theorem ticks_le_four (op : Operation) : op.ticks ≤ 4 := by
  rw [← cost_eq_ticks]
  cases op <;> simp [cost]

end Operation

end StackProcessor
