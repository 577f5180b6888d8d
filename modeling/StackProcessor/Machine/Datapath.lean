import StackProcessor.Machine.Attempt

/-!
# StackProcessor — the datapath

A `Datapath` holds the memory, the stack, the address register and the two port queues. A `Signal`
names what is latched and, through a selector (`AddressSource`, `StackMove`, `TopSource`,
`SecondSource`), where the value comes from; `Datapath.drive` carries one signal out, as an
`Attempt`.

* The stack occupies the cells `0 … depth - 1` of the fixed row `stack`, the top being the last of
  them; `stackPointer` is the integer `depth - 1`. Before the first signal each cell is `vacant`.
* `slot? k` is the position of the cell `k` below the top. It looks at the bottom of the stack only;
  that it is a position in the row needs `depth ≤ stack.size`, which every signal keeps.
* `move` looks at both ends: `lower` reports an underflow before the depth is made smaller, so that
  subtraction on natural numbers never stops at zero, and `StackMove.up` reports an overflow.
* `cell?` finds the memory cell of an address, if there is one.
* At address `Word.inputPort` a load takes a character (`receive`), and at `Word.outputPort` a store
  sends a word; the memory cells of these addresses are not touched by either.

A signal that is interrupted leaves the datapath as it was, except that `receive` takes the
character before it looks for a top to write it to.

## Results
- `size_stack_drive`, `size_memory_drive` : no signal changes the capacity of the stack or the size
  of the memory, also if it is interrupted.
-/

namespace StackProcessor

/-! ## Signals -/

/-- Where the data address is taken from. -/
inductive AddressSource where
  /-- The top of the stack holds the address. -/
  | top
  /-- The cell below the top holds it. -/
  | second
  deriving DecidableEq, Repr

/-- How the stack pointer moves. -/
inductive StackMove where
  | up
  | down
  | downTwo
  deriving DecidableEq, Repr

/-- What is written to the top of the stack. -/
inductive TopSource where
  | literal (value : Word)
  /-- A copy of the cell below. -/
  | second
  /-- The memory cell at the data address, or the input port. -/
  | memory
  /-- The old top plus one. -/
  | increment
  deriving DecidableEq, Repr

/-- What is written to the cell below the top. -/
inductive SecondSource where
  | literal (value : Word)
  /-- The result of the arithmetic unit on the two topmost cells. -/
  | alu (op : AluOp)
  deriving DecidableEq, Repr

/-- One transfer inside the datapath. -/
inductive Signal where
  | latchAddress (source : AddressSource)
  | moveStack (move : StackMove)
  | latchTop (source : TopSource)
  | latchSecond (source : SecondSource)
  /-- Store the top at the data address, or send it to the output port. -/
  | store
  deriving DecidableEq, Repr

/-! ## State -/

/-- The data side of the processor. -/
structure Datapath where
  memory : Array Word
  /-- All cells of the stack, also those that are not in use. -/
  stack : Array Word
  /-- Number of stack cells in use. -/
  depth : Nat
  /-- The data address register. -/
  address : Word
  /-- The characters that wait at the input port. -/
  input : List Char
  /-- The words sent to the output port. -/
  output : Array Word
  deriving DecidableEq, Repr, Inhabited

namespace Datapath

/-- What every stack cell holds at first. -/
def vacant : Word := -1

/-- The datapath before the first signal. -/
def initial (memory : List Word) (capacity : Nat) (input : List Char) : Datapath where
  memory := memory.toArray
  stack := Array.replicate capacity vacant
  depth := 0
  address := 0
  input := input
  output := #[]

/-- The position of the top of the stack, `-1` when the stack is empty. What `move` does to it is
`move_eq_pointer`. -/
def stackPointer (d : Datapath) : Int := (d.depth : Int) - 1

/-- The position of the cell `k` below the top, if the stack reaches that far. The other end of the
row is not looked at: that the position is one of a cell needs `Bounded`. -/
def slot? (d : Datapath) (k : Nat) : Option Nat :=
  if k < d.depth then some (d.depth - 1 - k) else none

/-- The word `k` cells below the top. -/
def peek? (d : Datapath) (k : Nat) : Option Word :=
  (d.slot? k).map fun i => d.stack.getD i vacant

/-- The top of the stack. -/
def top? (d : Datapath) : Option Word := d.peek? 0

/-- The cell below the top. -/
def second? (d : Datapath) : Option Word := d.peek? 1

/-- Where the memory has a cell with this address. The cells of the two ports are cells like any
other here. -/
def cell? (d : Datapath) (address : Word) : Option Nat :=
  if 0 ≤ address ∧ address.toInt < d.memory.size then some address.toInt.toNat else none

/-! ## Signals at work -/

/-- Writes to the cell `k` below the top, or reports an underflow if the stack does not reach that
far. -/
def poke (d : Datapath) (k : Nat) (value : Word) : Attempt Datapath :=
  match d.slot? k with
  | some i => .completed { d with stack := d.stack.setIfInBounds i value }
  | none => .interrupted d (.ofRuntime .stackUnderflow)

/-- Goes on with a stack cell that has to be there. -/
@[inline]
def withWord (d : Datapath) (word? : Option Word) (next : Word → Attempt Datapath) :
    Attempt Datapath :=
  match word? with
  | some w => next w
  | none => .interrupted d (.ofRuntime .stackUnderflow)

/-- Goes on with a memory cell that has to be there. -/
@[inline]
def withCell (d : Datapath) (address : Word) (next : Nat → Attempt Datapath) : Attempt Datapath :=
  match d.cell? address with
  | some i => next i
  | none => .interrupted d (.ofRuntime (.badAddress address))

/-- Gives up `n` cells of the stack. They have to be in use, which is looked at first, so what is
subtracted is never more than there is. -/
def lower (d : Datapath) (n : Nat) : Attempt Datapath :=
  if d.depth < n then .interrupted d (.ofRuntime .stackUnderflow)
  else .completed { d with depth := d.depth - n }

/-- Moves the stack pointer, which stays between `-1` and the last cell. Where it would leave them
the move is interrupted, and the pointer stays where it is. -/
def move (d : Datapath) : StackMove → Attempt Datapath
  | .up =>
    if d.depth < d.stack.size then .completed { d with depth := d.depth + 1 }
    else .interrupted d (.ofRuntime (.stackOverflow d.stack.size))
  | .down => d.lower 1
  | .downTwo => d.lower 2

/-- Takes a character from the input port and writes its code to the top. The character is gone even
if there is no top to write to. -/
def receive (d : Datapath) : Attempt Datapath :=
  match d.input with
  | [] => .interrupted d .inputExhausted
  | c :: rest => poke { d with input := rest } 0 (Word.ofChar c)

/-- Carries out one signal. What it reads is looked up before anything is written, and the first
thing that is missing is reported; only `receive` takes something before it has looked for all it
needs. -/
def drive (d : Datapath) : Signal → Attempt Datapath
  | .latchAddress .top => d.withWord d.top? fun w => .completed { d with address := w }
  | .latchAddress .second => d.withWord d.second? fun w => .completed { d with address := w }
  | .moveStack m => d.move m
  | .latchTop (.literal v) => d.poke 0 v
  | .latchTop .second => d.withWord d.second? fun w => d.poke 0 w
  | .latchTop .memory =>
    if d.address = Word.inputPort then d.receive
    else d.withCell d.address fun i => d.poke 0 (d.memory.getD i 0)
  | .latchTop .increment => d.withWord d.top? fun w => d.poke 0 (w + 1)
  | .latchSecond (.literal v) => d.poke 1 v
  | .latchSecond (.alu op) =>
    d.withWord d.top? fun left => d.withWord d.second? fun right => d.poke 1 (op.eval left right)
  | .store =>
    if d.address = Word.outputPort then
      d.withWord d.top? fun w => .completed { d with output := d.output.push w }
    else
      d.withCell d.address fun i =>
        d.withWord d.top? fun w => .completed { d with memory := d.memory.setIfInBounds i w }

/-- Whether the top of the stack is zero. -/
def zero? (d : Datapath) : Option Bool := d.top?.map (· == 0)

/-! ## What no signal changes -/

@[simp]
theorem size_stack_poke (d : Datapath) (k : Nat) (value : Word) :
    (d.poke k value).state.stack.size = d.stack.size := by
  unfold poke
  split <;> simp

@[simp]
theorem memory_poke (d : Datapath) (k : Nat) (value : Word) :
    (d.poke k value).state.memory = d.memory := by
  unfold poke
  split <;> rfl

theorem size_stack_drive (d : Datapath) (s : Signal) :
    (d.drive s).state.stack.size = d.stack.size := by
  unfold drive withWord withCell move lower receive
  repeat' split
  all_goals simp

theorem size_memory_drive (d : Datapath) (s : Signal) :
    (d.drive s).state.memory.size = d.memory.size := by
  unfold drive withWord withCell move lower receive
  repeat' split
  all_goals simp

end Datapath

end StackProcessor
