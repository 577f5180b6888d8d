import StackProcessor.Proofs.Machine.Live

/-!
# StackProcessor — operations at once

What the steps of an operation amount to, without the steps between. `Processor.execute` says for
each `Operation` which stacks it goes through on, what it leaves then, and what is left when it does
not: `underflow` leaves the processor as it is, `ifRoom` is an overflow on a full stack, and
`loadFrom` and `storeTo` go by the address that was latched. It is equal to the microcode wherever
the datapath is `Bounded`, which is the only hypothesis here.

## Results
- `Processor.perform_microcode` : `p.perform op.microcode = p.execute op`.
- `Processor.cycle_eq_execute` : so a cycle is `execute` after `fetch`.
- `Processor.sameStore_of_cycle` : an interrupted cycle leaves memory and ports as they were
  (`SameStore`).
-/

namespace StackProcessor

-- ---------------------------------------------------------------------------
-- Effects
-- ---------------------------------------------------------------------------

namespace Processor

/-- The same processor after `n` ticks, with another datapath. -/
def proceed (p : Processor) (n : Nat) (d : Datapath) : Processor :=
  { p with tick := p.tick + n, datapath := d }

/-- A cell was asked for that the stack does not reach. -/
def underflow (p : Processor) : Attempt Processor :=
  .interrupted p (.ofRuntime .stackUnderflow)

/-- Goes on if there is room for one more cell. -/
def ifRoom (p : Processor) (a : Attempt Processor) : Attempt Processor :=
  if p.datapath.depth < p.datapath.stack.size then a
  else .interrupted p (.ofRuntime (.stackOverflow p.datapath.stack.size))

/-- Continues at an instruction. -/
def jumpTo (p : Processor) (target : Nat) : Processor := { p with pc := target }

/-- Reads the address that was latched: a character from the input port, or a memory cell. -/
def loadFrom (p : Processor) : Attempt Processor :=
  let d := p.datapath
  if d.address = Word.inputPort then
    match d.input with
    | [] => .interrupted p .inputExhausted
    | c :: rest =>
      .completed (p.proceed 1 (Datapath.replaced { d with input := rest } 0 (Word.ofChar c)))
  else
    match d.cell? d.address with
    | some i => .completed (p.proceed 1 (d.replaced 0 (d.memory.getD i 0)))
    | none => .interrupted p (.ofRuntime (.badAddress d.address))

/-- Writes a word to the address that was latched: to the output port, or a memory cell. The two
topmost cells are given up. -/
def storeTo (p : Processor) (value : Word) : Attempt Processor :=
  let d := p.datapath
  if d.address = Word.outputPort then
    .completed (p.proceed 1 (Datapath.lowered { d with output := d.output.push value } 2))
  else
    match d.cell? d.address with
    | some i =>
      .completed (p.proceed 1
        (Datapath.lowered { d with memory := d.memory.setIfInBounds i value } 2))
    | none => .interrupted p (.ofRuntime (.badAddress d.address))

/-- What an operation does after its fetch. -/
def execute (p : Processor) : Operation → Attempt Processor
  | .halt => .interrupted p .halt
  | .jump target => .completed ((p.proceed 1 p.datapath).jumpTo target)
  | .jz target =>
    match p.datapath.live with
    | x :: _ =>
      .completed
        (if x = 0 then (p.proceed 1 p.datapath).jumpTo target else p.proceed 1 p.datapath)
    | [] => p.underflow
  | .push v => p.ifRoom (.completed (p.proceed 2 (p.datapath.pushed v)))
  -- the pointer has moved and a tick has passed before a missing cell is looked for
  | .dup =>
    p.ifRoom
      (match p.datapath.live with
      | x :: _ => .completed (p.proceed 2 (p.datapath.pushed x))
      | [] => underflow (p.proceed 1 p.datapath.raised))
  | .push2 v =>
    p.ifRoom
      (match p.datapath.live with
      | x :: _ => .completed (p.proceed 3 ((p.datapath.pushed x).replaced 1 v))
      | [] => underflow (p.proceed 1 p.datapath.raised))
  | .pop =>
    match p.datapath.live with
    | v :: a :: _ => storeTo (p.proceed 1 { p.datapath with address := a }) v
    | _ => p.underflow
  | .load =>
    match p.datapath.live with
    | a :: _ => loadFrom (p.proceed 1 { p.datapath with address := a })
    | [] => p.underflow
  | .drop =>
    match p.datapath.live with
    | _ :: _ => .completed (p.proceed 1 (p.datapath.lowered 1))
    | [] => p.underflow
  | .inc =>
    match p.datapath.live with
    | x :: _ => .completed (p.proceed 1 (p.datapath.replaced 0 (x + 1)))
    | [] => p.underflow
  | .alu op =>
    match p.datapath.live with
    | l :: r :: _ =>
      .completed (p.proceed 1 ((p.datapath.replaced 1 (op.eval l r)).lowered 1))
    | _ => p.underflow

end Processor

-- ---------------------------------------------------------------------------
-- Signals on a stack that is known
-- ---------------------------------------------------------------------------

namespace Datapath

variable {d : Datapath}

theorem raised_replaced (d : Datapath) (value : Word) :
    d.raised.replaced 0 value = d.pushed value := by
  simp [raised, replaced, pushed]

theorem drive_up (h : d.depth < d.stack.size) :
    d.drive (.moveStack .up) = .completed d.raised := by
  simp only [drive, move, if_pos h, raised]

theorem drive_up_full (h : ¬ d.depth < d.stack.size) :
    d.drive (.moveStack .up) = .interrupted d (.ofRuntime (.stackOverflow d.stack.size)) := by
  simp only [drive, move, if_neg h]

theorem lower_eq (h : d.Bounded) (n : Nat) :
    d.lower n = if n ≤ d.live.length then .completed (d.lowered n)
      else .interrupted d (.ofRuntime .stackUnderflow) := by
  rw [length_live h, lower]
  by_cases hn : d.depth < n
  · rw [if_pos hn, if_neg (by omega)]
  · rw [if_neg hn, if_pos (by omega)]
    rfl

theorem drive_literal (hroom : d.depth < d.stack.size) (value : Word) :
    d.raised.drive (.latchTop (.literal value)) = .completed (d.pushed value) := by
  rw [← raised_replaced]
  simp [drive, poke_eq (bounded_raised hroom), live_raised hroom]

theorem drive_copy (hroom : d.depth < d.stack.size) {x : Word} {rest : List Word}
    (hlive : d.live = x :: rest) :
    d.raised.drive (.latchTop .second) = .completed (d.pushed x) := by
  have hb : d.raised.Bounded := bounded_raised hroom
  rw [← raised_replaced]
  simp [drive, second?_eq hb, poke_eq hb, live_raised hroom, hlive, withWord]

theorem drive_copy_underflow (hroom : d.depth < d.stack.size) (hlive : d.live = []) :
    d.raised.drive (.latchTop .second) = .interrupted d.raised (.ofRuntime .stackUnderflow) := by
  simp [drive, second?_eq (bounded_raised hroom), live_raised hroom, hlive, withWord]

theorem drive_below (hroom : d.depth < d.stack.size) {x : Word} {rest : List Word}
    (hlive : d.live = x :: rest) (value : Word) :
    (d.pushed x).drive (.latchSecond (.literal value)) =
      .completed ((d.pushed x).replaced 1 value) := by
  simp [drive, poke_eq (bounded_pushed hroom x), live_pushed hroom, hlive]

theorem drive_address (h : d.Bounded) {a : Word} {rest : List Word} (hlive : d.live = a :: rest) :
    d.drive (.latchAddress .top) = .completed { d with address := a } := by
  simp [drive, top?_eq h, hlive, withWord]

theorem drive_address_underflow (h : d.Bounded) (hlive : d.live = []) :
    d.drive (.latchAddress .top) = .interrupted d (.ofRuntime .stackUnderflow) := by
  simp [drive, top?_eq h, hlive, withWord]

theorem drive_addressBelow (h : d.Bounded) {v a : Word} {rest : List Word}
    (hlive : d.live = v :: a :: rest) :
    d.drive (.latchAddress .second) = .completed { d with address := a } := by
  simp [drive, second?_eq h, hlive, withWord]

theorem drive_addressBelow_underflow (h : d.Bounded) (hlive : d.live.length < 2) :
    d.drive (.latchAddress .second) = .interrupted d (.ofRuntime .stackUnderflow) := by
  have hnone : d.live[1]? = none := List.getElem?_eq_none (by omega)
  simp [drive, second?_eq h, hnone, withWord]

theorem drive_drop (h : d.Bounded) (hlive : 1 ≤ d.live.length) :
    d.drive (.moveStack .down) = .completed (d.lowered 1) := by
  simp only [drive, move, lower_eq h, if_pos hlive]

theorem drive_dropTwo (h : d.Bounded) (hlive : 2 ≤ d.live.length) :
    d.drive (.moveStack .downTwo) = .completed (d.lowered 2) := by
  simp only [drive, move, lower_eq h, if_pos hlive]

theorem drive_alu (h : d.Bounded) (op : AluOp) {l r : Word} {rest : List Word}
    (hlive : d.live = l :: r :: rest) :
    d.drive (.latchSecond (.alu op)) = .completed (d.replaced 1 (op.eval l r)) := by
  simp [drive, top?_eq h, second?_eq h, poke_eq h, hlive, withWord]

theorem drive_alu_underflow (h : d.Bounded) (op : AluOp) (hlive : d.live.length < 2) :
    d.drive (.latchSecond (.alu op)) = .interrupted d (.ofRuntime .stackUnderflow) := by
  have hnone : d.live[1]? = none := List.getElem?_eq_none (by omega)
  simp only [drive, top?_eq h, second?_eq h, hnone, withWord]
  cases d.live[0]? <;> rfl

end Datapath

-- ---------------------------------------------------------------------------
-- The steps of each operation
-- ---------------------------------------------------------------------------

namespace Processor

variable {code : Array Instruction} {pc tick : Nat} {register : Option Instruction}
  {d e : Datapath} {s : Signal} {cause : Interrupt}

theorem perform_drive (h : d.drive s = .completed e) (rest : List Step) :
    perform ⟨code, pc, register, tick, d⟩ (.drive s :: rest) =
      perform ⟨code, pc, register, tick, e⟩ rest := by
  simp only [perform, step, drive, h]
  rfl

theorem perform_drive_interrupted (h : d.drive s = .interrupted e cause) (rest : List Step) :
    perform ⟨code, pc, register, tick, d⟩ (.drive s :: rest) =
      .interrupted ⟨code, pc, register, tick, e⟩ cause := by
  simp only [perform, step, drive, h]
  rfl

theorem perform_tick (rest : List Step) :
    perform ⟨code, pc, register, tick, d⟩ (.tick :: rest) =
      perform ⟨code, pc, register, tick + 1, d⟩ rest := rfl

theorem perform_nil (p : Processor) : p.perform [] = .completed p := rfl

theorem perform_jz (h : d.Bounded) (target : Nat) :
    perform ⟨code, pc, register, tick, d⟩ (Operation.jz target).microcode =
      execute ⟨code, pc, register, tick, d⟩ (.jz target) := by
  have hzero : d.zero? = d.live[0]?.map (· == 0) := by rw [Datapath.zero?, Datapath.top?_eq h]
  simp only [Operation.microcode, perform, step, hzero, execute]
  cases d.live with
  | nil => rfl
  | cons x rest =>
    by_cases hx : x = 0
    · simp [hx, Attempt.andThen, passTick, proceed, jumpTo]
    · have hx' : (x == 0) = false := by simpa using hx
      simp [hx, hx', Attempt.andThen, passTick, proceed]

theorem ifRoom_congr {p : Processor} {a b : Attempt Processor}
    (h : p.datapath.depth < p.datapath.stack.size → a = b) : p.ifRoom a = p.ifRoom b := by
  unfold ifRoom
  by_cases hroom : p.datapath.depth < p.datapath.stack.size
  · rw [if_pos hroom, if_pos hroom, h hroom]
  · rw [if_neg hroom, if_neg hroom]

/-- What begins by moving the pointer up needs room, and goes on with one more cell in use. -/
theorem perform_up (rest : List Step) :
    perform ⟨code, pc, register, tick, d⟩ (.drive (.moveStack .up) :: .tick :: rest) =
      ifRoom ⟨code, pc, register, tick, d⟩
        (perform ⟨code, pc, register, tick + 1, d.raised⟩ rest) := by
  unfold ifRoom
  by_cases hroom : d.depth < d.stack.size
  · rw [if_pos hroom, perform_drive (Datapath.drive_up hroom), perform_tick]
  · rw [if_neg hroom, perform_drive_interrupted (Datapath.drive_up_full hroom)]

theorem perform_push (value : Word) :
    perform ⟨code, pc, register, tick, d⟩ (Operation.push value).microcode =
      execute ⟨code, pc, register, tick, d⟩ (.push value) := by
  simp only [Operation.microcode, execute]
  rw [perform_up]
  apply ifRoom_congr
  intro hroom
  rw [perform_drive (Datapath.drive_literal hroom value), perform_tick, perform_nil]
  rfl

theorem perform_dup :
    perform ⟨code, pc, register, tick, d⟩ Operation.dup.microcode =
      execute ⟨code, pc, register, tick, d⟩ .dup := by
  simp only [Operation.microcode, execute]
  rw [perform_up]
  apply ifRoom_congr
  intro hroom
  rcases hlive : d.live with _ | ⟨x, rest⟩
  · rw [perform_drive_interrupted (Datapath.drive_copy_underflow hroom hlive)]
    rfl
  · rw [perform_drive (Datapath.drive_copy hroom hlive), perform_tick, perform_nil]
    rfl

theorem perform_push2 (value : Word) :
    perform ⟨code, pc, register, tick, d⟩ (Operation.push2 value).microcode =
      execute ⟨code, pc, register, tick, d⟩ (.push2 value) := by
  simp only [Operation.microcode, execute]
  rw [perform_up]
  apply ifRoom_congr
  intro hroom
  rcases hlive : d.live with _ | ⟨x, rest⟩
  · rw [perform_drive_interrupted (Datapath.drive_copy_underflow hroom hlive)]
    rfl
  · rw [perform_drive (Datapath.drive_copy hroom hlive), perform_tick,
      perform_drive (Datapath.drive_below hroom hlive value), perform_tick, perform_nil]
    rfl

theorem perform_drop (h : d.Bounded) :
    perform ⟨code, pc, register, tick, d⟩ Operation.drop.microcode =
      execute ⟨code, pc, register, tick, d⟩ .drop := by
  simp only [Operation.microcode, execute]
  rcases hlive : d.live with _ | ⟨x, rest⟩
  · have hdrive : d.drive (.moveStack .down) = .interrupted d (.ofRuntime .stackUnderflow) := by
      simp [Datapath.drive, Datapath.move, Datapath.lower_eq h, hlive]
    rw [perform_drive_interrupted hdrive]
    rfl
  · rw [perform_drive (Datapath.drive_drop h (by simp [hlive])), perform_tick, perform_nil]
    rfl

theorem perform_inc (h : d.Bounded) :
    perform ⟨code, pc, register, tick, d⟩ Operation.inc.microcode =
      execute ⟨code, pc, register, tick, d⟩ .inc := by
  simp only [Operation.microcode, execute]
  rcases hlive : d.live with _ | ⟨x, rest⟩
  · have hdrive : d.drive (.latchTop .increment) = .interrupted d (.ofRuntime .stackUnderflow) := by
      simp [Datapath.drive, Datapath.top?_eq h, hlive, Datapath.withWord]
    rw [perform_drive_interrupted hdrive]
    rfl
  · have hdrive : d.drive (.latchTop .increment) = .completed (d.replaced 0 (x + 1)) := by
      simp [Datapath.drive, Datapath.top?_eq h, Datapath.poke_eq h, hlive, Datapath.withWord]
    rw [perform_drive hdrive, perform_tick, perform_nil]
    rfl

theorem perform_alu (h : d.Bounded) (op : AluOp) :
    perform ⟨code, pc, register, tick, d⟩ (Operation.alu op).microcode =
      execute ⟨code, pc, register, tick, d⟩ (.alu op) := by
  simp only [Operation.microcode, execute]
  rcases hlive : d.live with _ | ⟨l, _ | ⟨r, rest⟩⟩
  · rw [perform_drive_interrupted (Datapath.drive_alu_underflow h op (by simp [hlive]))]
    rfl
  · rw [perform_drive_interrupted (Datapath.drive_alu_underflow h op (by simp [hlive]))]
    rfl
  · -- the result is written below the top, which is then given up
    have hb : (d.replaced 1 (op.eval l r)).Bounded := Datapath.bounded_replaced h 1 _
    have hlength : 1 ≤ (d.replaced 1 (op.eval l r)).live.length := by
      rw [Datapath.live_replaced h (by simp [hlive]), hlive]
      simp
    rw [perform_drive (Datapath.drive_alu h op hlive),
      perform_drive (Datapath.drive_drop hb hlength), perform_tick, perform_nil]
    rfl

theorem perform_loadFrom (h : d.Bounded) (hlive : 0 < d.live.length) :
    perform ⟨code, pc, register, tick, d⟩ [.drive (.latchTop .memory), .tick] =
      loadFrom ⟨code, pc, register, tick, d⟩ := by
  simp only [loadFrom]
  by_cases hport : d.address = Word.inputPort
  · rw [if_pos hport]
    cases hinput : d.input with
    | nil =>
      have hdrive : d.drive (.latchTop .memory) = .interrupted d .inputExhausted := by
        simp only [Datapath.drive, if_pos hport, Datapath.receive, hinput]
      rw [perform_drive_interrupted hdrive]
    | cons c rest =>
      have hb : Datapath.Bounded { d with input := rest } := h
      have hdrive : d.drive (.latchTop .memory) =
          .completed (Datapath.replaced { d with input := rest } 0 (Word.ofChar c)) := by
        simp only [Datapath.drive, if_pos hport, Datapath.receive, hinput, Datapath.poke_eq hb]
        exact if_pos hlive
      rw [perform_drive hdrive, perform_tick, perform_nil]
      rfl
  · rw [if_neg hport]
    cases hcell : d.cell? d.address with
    | none =>
      have hdrive : d.drive (.latchTop .memory) =
          .interrupted d (.ofRuntime (.badAddress d.address)) := by
        simp only [Datapath.drive, if_neg hport, Datapath.withCell, hcell]
      rw [perform_drive_interrupted hdrive]
    | some i =>
      have hdrive : d.drive (.latchTop .memory) =
          .completed (d.replaced 0 (d.memory.getD i 0)) := by
        simp only [Datapath.drive, if_neg hport, Datapath.withCell, hcell, Datapath.poke_eq h,
          if_pos hlive]
      rw [perform_drive hdrive, perform_tick, perform_nil]
      rfl

theorem perform_load (h : d.Bounded) :
    perform ⟨code, pc, register, tick, d⟩ Operation.load.microcode =
      execute ⟨code, pc, register, tick, d⟩ .load := by
  simp only [Operation.microcode, execute]
  rcases hlive : d.live with _ | ⟨a, rest⟩
  · rw [perform_drive_interrupted (Datapath.drive_address_underflow h hlive)]
    rfl
  · have hb : Datapath.Bounded { d with address := a } := h
    have hlength : 0 < d.live.length := by simp [hlive]
    rw [perform_drive (Datapath.drive_address h hlive), perform_tick, perform_loadFrom hb hlength]
    rfl

theorem perform_storeTo (h : d.Bounded) {v a : Word} {rest : List Word}
    (hlive : d.live = v :: a :: rest) :
    perform ⟨code, pc, register, tick, d⟩ [.drive .store, .drive (.moveStack .downTwo), .tick] =
      storeTo ⟨code, pc, register, tick, d⟩ v := by
  have htop : d.top? = some v := by rw [Datapath.top?_eq h, hlive]; rfl
  have hlength : 2 ≤ d.live.length := by simp [hlive]
  simp only [storeTo]
  by_cases hport : d.address = Word.outputPort
  · have hb : Datapath.Bounded { d with output := d.output.push v } := h
    have hdrive : d.drive .store = .completed { d with output := d.output.push v } := by
      simp only [Datapath.drive, if_pos hport, htop, Datapath.withWord]
    rw [if_pos hport, perform_drive hdrive, perform_drive (Datapath.drive_dropTwo hb hlength),
      perform_tick, perform_nil]
    rfl
  · rw [if_neg hport]
    cases hcell : d.cell? d.address with
    | none =>
      have hdrive : d.drive .store = .interrupted d (.ofRuntime (.badAddress d.address)) := by
        simp only [Datapath.drive, if_neg hport, Datapath.withCell, hcell]
      rw [perform_drive_interrupted hdrive]
    | some i =>
      have hb : Datapath.Bounded { d with memory := d.memory.setIfInBounds i v } := h
      have hdrive : d.drive .store =
          .completed { d with memory := d.memory.setIfInBounds i v } := by
        simp only [Datapath.drive, if_neg hport, Datapath.withCell, hcell, htop, Datapath.withWord]
      rw [perform_drive hdrive, perform_drive (Datapath.drive_dropTwo hb hlength), perform_tick,
        perform_nil]
      rfl

theorem perform_pop (h : d.Bounded) :
    perform ⟨code, pc, register, tick, d⟩ Operation.pop.microcode =
      execute ⟨code, pc, register, tick, d⟩ .pop := by
  simp only [Operation.microcode, execute]
  rcases hlive : d.live with _ | ⟨v, _ | ⟨a, rest⟩⟩
  · rw [perform_drive_interrupted (Datapath.drive_addressBelow_underflow h (by simp [hlive]))]
    rfl
  · rw [perform_drive_interrupted (Datapath.drive_addressBelow_underflow h (by simp [hlive]))]
    rfl
  · have hb : Datapath.Bounded { d with address := a } := h
    have hlive' : Datapath.live { d with address := a } = v :: a :: rest := hlive
    rw [perform_drive (Datapath.drive_addressBelow h hlive), perform_tick,
      perform_storeTo hb hlive']
    rfl

-- ---------------------------------------------------------------------------
-- Operations and cycles
-- ---------------------------------------------------------------------------

/-- Within bounds the steps of an operation do what `execute` says. -/
theorem perform_microcode {p : Processor} (h : p.datapath.Bounded) (op : Operation) :
    p.perform op.microcode = p.execute op := by
  obtain ⟨code, pc, register, tick, d⟩ := p
  cases op with
  | halt => rfl
  | jump target => rfl
  | jz target => exact perform_jz h target
  | push value => exact perform_push value
  | push2 value => exact perform_push2 value
  | pop => exact perform_pop h
  | load => exact perform_load h
  | drop => exact perform_drop h
  | dup => exact perform_dup
  | inc => exact perform_inc h
  | alu op => exact perform_alu h op

/-- Within bounds a cycle fetches a record and does what `execute` says of its operation. -/
theorem cycle_eq_execute {p : Processor} (h : p.datapath.Bounded) {inst : Instruction}
    {op : Operation} (hfetch : p.code[p.pc]? = some inst) (hop : inst.operation = .ok op) :
    p.cycle = (p.fetch inst).execute op := by
  have hb : (p.fetch inst).datapath.Bounded := h
  rw [cycle_of_operation_eq_ok hfetch hop, perform_microcode hb op]

-- ---------------------------------------------------------------------------
-- Interrupted cycles
-- ---------------------------------------------------------------------------

/-- The same memory and the same words at the ports. -/
def SameStore (p q : Processor) : Prop :=
  q.datapath.memory = p.datapath.memory ∧ q.datapath.input = p.datapath.input ∧
    q.datapath.output = p.datapath.output

/-- What cuts an operation short comes before its effect: only the pointer, the address register and
the clock may have moved. -/
theorem sameStore_of_execute {p q : Processor} {op : Operation} {cause : Interrupt}
    (h : p.execute op = .interrupted q cause) : p.SameStore q := by
  simp only [execute] at h
  split at h
  all_goals
    -- what completes is no interrupt, and what is interrupted has stored and sent nothing yet
    try simp only [ifRoom, underflow, loadFrom, storeTo] at h
    repeat' split at h
    all_goals
      cases h
      try exact ⟨rfl, rfl, rfl⟩

theorem sameStore_of_cycle {p q : Processor} (h : p.datapath.Bounded) {cause : Interrupt}
    (hCycle : p.cycle = .interrupted q cause) : p.SameStore q := by
  cases hFetch : p.code[p.pc]? with
  | none =>
    rw [cycle_of_getElem?_eq_none hFetch] at hCycle
    cases hCycle
    exact ⟨rfl, rfl, rfl⟩
  | some inst =>
    cases hOp : inst.operation with
    | error fault =>
      rw [cycle_of_operation_eq_error hFetch hOp] at hCycle
      cases hCycle
      exact ⟨rfl, rfl, rfl⟩
    | ok op =>
      rw [cycle_eq_execute h hFetch hOp] at hCycle
      exact sameStore_of_execute (p := p.fetch inst) hCycle

end Processor

end StackProcessor
