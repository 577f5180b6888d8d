import StackProcessor.Proofs.Machine.Bounds

/-!
# StackProcessor — access to cells

`Datapath` reads with `getD` and writes with `setIfInBounds`, which give something for every index.
What an access outside a row of cells would be is made explicit by a second set of operations,
`driveChecked` and `cycleChecked`, whose reads and writes look at both ends of the row and stop with
`OutOfRange` beyond them. On every datapath that is `Bounded`, and so on every one that can be
reached, they do the same as `drive` and `cycle`, and never stop.

## Results
- `Datapath.driveChecked_eq` : `d.driveChecked s = .ok (d.drive s)` if `d` is `Bounded`.
- `Processor.cycleChecked_eq` : the same of a cycle.
- `signals_and_cycles_stay_within` : for any list of signals and any number of cycles of any code,
  the pointer stays between `-1` and the last cell (`Datapath.Within`), no access leaves its row,
  and a signal sends one word and takes one character at most.
-/

namespace StackProcessor

-- ---------------------------------------------------------------------------
-- Access with both ends checked
-- ---------------------------------------------------------------------------

/-- An access to a cell that its row does not have. -/
inductive OutOfRange where
  | stack (index : Nat)
  | memory (index : Nat)
  deriving DecidableEq, Repr

namespace Datapath

/-- The stack cell at a position. -/
def readStack (d : Datapath) (i : Nat) : Except OutOfRange Word :=
  match d.stack[i]? with
  | some w => .ok w
  | none => .error (.stack i)

/-- The memory cell at a position. -/
def readMemory (d : Datapath) (i : Nat) : Except OutOfRange Word :=
  match d.memory[i]? with
  | some w => .ok w
  | none => .error (.memory i)

/-- Writes to the stack cell at a position. -/
def writeStack (d : Datapath) (i : Nat) (value : Word) : Except OutOfRange Datapath :=
  if i < d.stack.size then .ok { d with stack := d.stack.setIfInBounds i value }
  else .error (.stack i)

/-- Writes to the memory cell at a position. -/
def writeMemory (d : Datapath) (i : Nat) (value : Word) : Except OutOfRange Datapath :=
  if i < d.memory.size then .ok { d with memory := d.memory.setIfInBounds i value }
  else .error (.memory i)

/-- The word `k` cells below the top. -/
def peekChecked (d : Datapath) (k : Nat) : Except OutOfRange (Option Word) :=
  match d.slot? k with
  | some i => (d.readStack i).map some
  | none => .ok none

/-- Writes to the cell `k` below the top. -/
def pokeChecked (d : Datapath) (k : Nat) (value : Word) : Except OutOfRange (Attempt Datapath) :=
  match d.slot? k with
  | some i => (d.writeStack i value).map .completed
  | none => .ok (.interrupted d (.ofRuntime .stackUnderflow))

/-- Goes on with the word `k` cells below the top, which has to be there. -/
def withPeekChecked (d : Datapath) (k : Nat) (next : Word → Except OutOfRange (Attempt Datapath)) :
    Except OutOfRange (Attempt Datapath) := do
  match ← d.peekChecked k with
  | some w => next w
  | none => return .interrupted d (.ofRuntime .stackUnderflow)

/-- Goes on with a memory cell that has to be there. -/
def withCellChecked (d : Datapath) (address : Word)
    (next : Nat → Except OutOfRange (Attempt Datapath)) : Except OutOfRange (Attempt Datapath) :=
  match d.cell? address with
  | some i => next i
  | none => .ok (.interrupted d (.ofRuntime (.badAddress address)))

/-- Takes a character from the input port and writes its code to the top. -/
def receiveChecked (d : Datapath) : Except OutOfRange (Attempt Datapath) :=
  match d.input with
  | [] => .ok (.interrupted d .inputExhausted)
  | c :: rest => pokeChecked { d with input := rest } 0 (Word.ofChar c)

/-- Carries out one signal. -/
def driveChecked (d : Datapath) : Signal → Except OutOfRange (Attempt Datapath)
  | .latchAddress .top => d.withPeekChecked 0 fun w => .ok (.completed { d with address := w })
  | .latchAddress .second => d.withPeekChecked 1 fun w => .ok (.completed { d with address := w })
  | .moveStack m => .ok (d.move m)
  | .latchTop (.literal v) => d.pokeChecked 0 v
  | .latchTop .second => d.withPeekChecked 1 fun w => d.pokeChecked 0 w
  | .latchTop .memory =>
    if d.address = Word.inputPort then d.receiveChecked
    else d.withCellChecked d.address fun i => do d.pokeChecked 0 (← d.readMemory i)
  | .latchTop .increment => d.withPeekChecked 0 fun w => d.pokeChecked 0 (w + 1)
  | .latchSecond (.literal v) => d.pokeChecked 1 v
  | .latchSecond (.alu op) =>
    d.withPeekChecked 0 fun left => d.withPeekChecked 1 fun right =>
      d.pokeChecked 1 (op.eval left right)
  | .store =>
    if d.address = Word.outputPort then
      d.withPeekChecked 0 fun w => .ok (.completed { d with output := d.output.push w })
    else
      d.withCellChecked d.address fun i => d.withPeekChecked 0 fun w =>
        (d.writeMemory i w).map .completed

/-- Whether the top of the stack is zero. -/
def zeroChecked (d : Datapath) : Except OutOfRange (Option Bool) :=
  (d.peekChecked 0).map fun w? => w?.map (· == 0)

end Datapath

namespace Processor

/-- Performs one step. -/
def stepChecked (p : Processor) : Step → Except OutOfRange (Attempt Processor)
  | .drive s => do return (← p.datapath.driveChecked s).map fun d => { p with datapath := d }
  | .branch target => do
    match ← p.datapath.zeroChecked with
    | some true => return .completed { p with pc := target }
    | some false => return .completed p
    | none => return .interrupted p (.ofRuntime .stackUnderflow)
  | s => .ok (p.step s)

/-- Performs steps until one is interrupted. -/
def performChecked (p : Processor) : List Step → Except OutOfRange (Attempt Processor)
  | [] => .ok (.completed p)
  | s :: rest => do
    match ← p.stepChecked s with
    | .completed q => q.performChecked rest
    | .interrupted q cause => return .interrupted q cause

/-- Runs one instruction cycle. -/
def cycleChecked (p : Processor) : Except OutOfRange (Attempt Processor) :=
  match p.code[p.pc]? with
  | none => .ok (.interrupted p (.ofRuntime (.pcOutOfRange p.pc)))
  | some inst =>
    match inst.operation with
    | .error fault => .ok (.interrupted p (.fault (.decode fault)))
    | .ok op => (p.fetch inst).performChecked op.microcode

end Processor

-- ---------------------------------------------------------------------------
-- Within bounds both datapaths agree
-- ---------------------------------------------------------------------------

namespace Datapath

theorem slot?_lt {d : Datapath} (h : d.Bounded) {k i : Nat} (hi : d.slot? k = some i) :
    i < d.stack.size := by
  unfold slot? at hi
  unfold Bounded at h
  split at hi
  · simp only [Option.some.injEq] at hi
    omega
  · simp at hi

theorem cell?_lt {d : Datapath} {address : Word} {i : Nat} (hi : d.cell? address = some i) :
    i < d.memory.size := by
  unfold cell? at hi
  split at hi
  · rename_i hrange
    have hpos : 0 ≤ address.toInt := Int32.le_iff_toInt_le.mp hrange.1
    simp only [Option.some.injEq] at hi
    omega
  · simp at hi

theorem peekChecked_eq {d : Datapath} (h : d.Bounded) (k : Nat) :
    d.peekChecked k = .ok (d.peek? k) := by
  unfold peekChecked peek?
  cases hi : d.slot? k with
  | none => rfl
  | some i =>
    -- the lower end was looked at, the upper end is the invariant
    have hlt := slot?_lt h hi
    simp [readStack, Array.getD_eq_getD_getElem?, hlt, Except.map]

theorem pokeChecked_eq {d : Datapath} (h : d.Bounded) (k : Nat) (value : Word) :
    d.pokeChecked k value = .ok (d.poke k value) := by
  unfold pokeChecked poke
  cases hi : d.slot? k with
  | none => rfl
  | some i =>
    have hlt := slot?_lt h hi
    simp only [writeStack, if_pos hlt, Except.map]

theorem withPeekChecked_ok {d : Datapath} (h : d.Bounded) (k : Nat)
    (next : Word → Attempt Datapath) :
    (d.withPeekChecked k fun w => .ok (next w)) = .ok (d.withWord (d.peek? k) next) := by
  rw [withPeekChecked, peekChecked_eq h]
  unfold withWord
  cases d.peek? k <;> rfl

theorem withCellChecked_ok (d : Datapath) (address : Word) {next : Nat → Attempt Datapath}
    {nextChecked : Nat → Except OutOfRange (Attempt Datapath)}
    (h : ∀ i, i < d.memory.size → nextChecked i = .ok (next i)) :
    d.withCellChecked address nextChecked = .ok (d.withCell address next) := by
  unfold withCellChecked withCell
  cases hi : d.cell? address with
  | none => rfl
  | some i => exact h i (cell?_lt hi)

theorem receiveChecked_eq {d : Datapath} (h : d.Bounded) : d.receiveChecked = .ok d.receive := by
  unfold receiveChecked receive
  cases d.input with
  | nil => rfl
  | cons c rest =>
    have hrest : Bounded { d with input := rest } := h
    exact pokeChecked_eq hrest 0 (Word.ofChar c)

theorem readMemory_eq {d : Datapath} {i : Nat} (h : i < d.memory.size) :
    d.readMemory i = .ok (d.memory.getD i 0) := by
  simp [readMemory, Array.getD_eq_getD_getElem?, h]

/-- A bounded datapath accesses no cell that is not there. -/
theorem driveChecked_eq {d : Datapath} (h : d.Bounded) (s : Signal) :
    d.driveChecked s = .ok (d.drive s) := by
  cases s with
  | latchAddress source => cases source <;> exact withPeekChecked_ok h _ _
  | moveStack m => rfl
  | latchTop source =>
    cases source with
    | literal v => exact pokeChecked_eq h 0 v
    | second =>
      simp only [driveChecked, pokeChecked_eq h]
      exact withPeekChecked_ok h 1 _
    | memory =>
      -- the input port stands before the memory cell of its address
      simp only [driveChecked, drive]
      split
      · exact receiveChecked_eq h
      · apply withCellChecked_ok
        intro i hi
        rw [readMemory_eq hi]
        exact pokeChecked_eq h 0 _
    | increment =>
      simp only [driveChecked, pokeChecked_eq h]
      exact withPeekChecked_ok h 0 _
  | latchSecond source =>
    cases source with
    | literal v => exact pokeChecked_eq h 1 v
    | alu op =>
      simp only [driveChecked, pokeChecked_eq h, withPeekChecked_ok h]
      rfl
  | store =>
    simp only [driveChecked, drive]
    split
    · exact withPeekChecked_ok h 0 _
    · apply withCellChecked_ok
      intro i hi
      simp only [writeMemory, if_pos hi, Except.map]
      exact withPeekChecked_ok h 0 _

theorem zeroChecked_eq {d : Datapath} (h : d.Bounded) : d.zeroChecked = .ok d.zero? := by
  rw [zeroChecked, peekChecked_eq h]
  rfl

end Datapath

namespace Processor

theorem stepChecked_eq {p : Processor} (h : p.datapath.Bounded) (s : Step) :
    p.stepChecked s = .ok (p.step s) := by
  cases s with
  | drive signal =>
    simp only [stepChecked, Datapath.driveChecked_eq h]
    rfl
  | branch target =>
    simp only [stepChecked, Datapath.zeroChecked_eq h, step]
    cases p.datapath.zero? with
    | none => rfl
    | some z => cases z <;> rfl
  | _ => rfl

theorem performChecked_eq {p : Processor} (h : p.datapath.Bounded) (steps : List Step) :
    p.performChecked steps = .ok (p.perform steps) := by
  induction steps generalizing p with
  | nil => rfl
  | cons s rest ih =>
    -- the bounds have to hold again before the next step
    have hs : (p.step s).state.datapath.Bounded :=
      datapath_step (P := Datapath.Bounded) (fun _ signal hd => Datapath.bounded_drive hd signal)
        p s h
    simp only [performChecked, stepChecked_eq h, perform]
    cases hq : p.step s with
    | completed q =>
      rw [hq] at hs
      exact ih hs
    | interrupted q cause => rfl

/-- A cycle from a bounded datapath accesses no cell that is not there. -/
theorem cycleChecked_eq {p : Processor} (h : p.datapath.Bounded) :
    p.cycleChecked = .ok p.cycle := by
  unfold cycleChecked cycle
  cases p.code[p.pc]? with
  | none => rfl
  | some inst =>
    simp only
    cases inst.operation with
    | error fault => rfl
    | ok op =>
      have hfetch : (p.fetch inst).datapath.Bounded := h
      exact performChecked_eq hfetch op.microcode

end Processor

-- ---------------------------------------------------------------------------
-- Whatever signals and cycles lead to
-- ---------------------------------------------------------------------------

/-- After any signals in any order, and after any number of cycles of any code from there, with
interrupts on the way or without: the bounds hold, the next signal or cycle accesses only cells that
are there, and whatever follows adds to the output and takes from the input, at most one word and
one character for each signal or cycle. -/
theorem signals_and_cycles_stay_within (memory : List Word) (capacity : Nat) (input : List Char)
    (signals : List Signal) (code : Array Instruction) (pc tick : Nat)
    (register : Option Instruction) (n : Nat) :
    let d := (Datapath.initial memory capacity input).driveAll signals
    let p : Processor := ⟨code, pc, register, tick, d⟩
    let q := p.cycles n
    d.Within memory capacity input ∧
    (∀ s, d.driveChecked s = .ok (d.drive s)) ∧
    d.zeroChecked = .ok d.zero? ∧
    (∀ more, d.Traffic (d.driveAll more) more.length more.length) ∧
    q.datapath.Within memory capacity input ∧
    q.cycleChecked = .ok q.cycle ∧
    (∀ k, q.datapath.Traffic (q.cycles k).datapath k k) := by
  intro d p q
  have hd : d.Within memory capacity input :=
    Datapath.within_driveAll (Datapath.within_initial memory capacity input) signals
  -- a cycle drives nothing but signals, so that the bounds are carried over it as well
  have hq : q.datapath.Within memory capacity input := by
    apply Processor.datapath_cycles (P := Datapath.Within memory capacity input)
    · intro e s he
      exact Datapath.within_drive he s
    · exact hd
  refine ⟨hd, ?_, ?_, ?_, hq, ?_, ?_⟩
  · intro s
    exact Datapath.driveChecked_eq hd.bounded s
  · exact Datapath.zeroChecked_eq hd.bounded
  · intro more
    exact Datapath.traffic_driveAll d more
  · exact Processor.cycleChecked_eq hq.bounded
  · intro k
    exact Processor.traffic_cycles q k

end StackProcessor
