import StackProcessor.Proofs.Machine.Execution
import StackProcessor.Proofs.Machine.ListMachine
import StackProcessor.Simulation.Session

/-!
# StackProcessor — the processor refines the list machine

`Processor.view` shows a processor as a `ListMachine`: the cells in use become the stack, and ticks,
registers and the cells out of use are forgotten. If the datapath is `Bounded`, a cycle completes
exactly when the list machine has a step, and leads to the view of what the step leads to; it is
interrupted exactly when the list machine `Refuses`, with the same cause. `Agrees` is this relation
between one state of the list machine and one `Attempt` at a cycle.

How runs end is compared by `ListMachine.EndsWith`: halting, an empty input and a fault are the
cause for which the list machine refuses, with the output and the number of instructions. Where a
run is cut off by the tick limit is not for the list machine to say, since it has no clock.

## Results
- `Processor.cycle_agrees` : one case for each operation, through `Processor.execute`.
- `Processor.steps?_eq_some_iff` : `n` steps against `n` cycles, by induction on `n`.
- `Session.run_endsWith` : a session ends as the list machine ends.
- `Processor.refines_listMachine` : all of this, in one statement.
-/

namespace StackProcessor

namespace Processor

/-- The processor as a list machine. -/
def view (p : Processor) : ListMachine where
  code := p.code.toList
  capacity := p.datapath.stack.size
  pc := p.pc
  stack := p.datapath.live
  memory := p.datapath.memory.toList
  input := p.datapath.input
  output := p.datapath.output.toList

/-- What the list machine must say of an attempt at a cycle from the state `m`. -/
def Agrees (m : ListMachine) : Attempt Processor → Prop
  | .completed q => m.step? = some q.view
  | .interrupted _ cause => m.step? = none ∧ m.Refuses cause

theorem view_initial (image : Image) (capacity : Nat) (input : List Char) :
    (initial image capacity input).view = ListMachine.initial image capacity input := by
  simp [initial, view, ListMachine.initial, Datapath.initial, Datapath.live]

theorem code_view_getElem? (p : Processor) : p.view.code[p.view.pc]? = p.code[p.pc]? := by
  simp [view]

theorem view_fetch (p : Processor) (inst : Instruction) : (p.fetch inst).view = p.view.next := rfl

/-- The word above the greatest one is the least one, in the registers as in the arithmetic. -/
theorem add_one_eq_wrap (x : Word) : x + 1 = Word.wrap (x.toInt + 1) := by
  rw [Word.wrap, Int32.ofInt_add, Int32.ofInt_toInt]
  rfl

-- ---------------------------------------------------------------------------
-- What a change of the datapath shows
-- ---------------------------------------------------------------------------

section

variable {q : Processor}

theorem view_proceed (q : Processor) (n : Nat) : (q.proceed n q.datapath).view = q.view := rfl

theorem view_jumpTo (q : Processor) (n target : Nat) :
    ((q.proceed n q.datapath).jumpTo target).view = { q.view with pc := target } := rfl

theorem view_pushed (hRoom : q.datapath.depth < q.datapath.stack.size) (n : Nat) (v : Word) :
    (q.proceed n (q.datapath.pushed v)).view = { q.view with stack := v :: q.view.stack } := by
  have hLive := Datapath.live_pushed hRoom v
  simp only [view, proceed, hLive]
  simp [Datapath.pushed]

theorem view_replaced (h : q.datapath.Bounded) {k : Nat} (hk : k < q.view.stack.length) (n : Nat)
    (v : Word) :
    (q.proceed n (q.datapath.replaced k v)).view =
      { q.view with stack := q.view.stack.set k v } := by
  have hLive := Datapath.live_replaced h hk v
  simp only [view, proceed, hLive]
  simp [Datapath.replaced]

theorem view_lowered (h : q.datapath.Bounded) (n k : Nat) :
    (q.proceed n (q.datapath.lowered k)).view =
      { q.view with stack := q.view.stack.drop k } := by
  have hLive := Datapath.live_lowered h k
  simp only [view, proceed, hLive]
  rfl

/-- Both machines look for a memory cell in the same way. -/
theorem cell?_eq (q : Processor) (a : Word) :
    q.datapath.cell? a = if q.view.HasCell a then some a.toInt.toNat else none := by
  have hLow : (0 ≤ a) = (0 ≤ a.toInt) := by simp [Int32.le_iff_toInt_le]
  simp [Datapath.cell?, ListMachine.HasCell, view, hLow]

end

-- ---------------------------------------------------------------------------
-- One operation
-- ---------------------------------------------------------------------------

section

variable {m : ListMachine} {q : Processor} {op : Operation}

theorem agrees_completed {r : Processor} (hOp : m.operation? = some op)
    (hExec : m.exec? op = some r.view) : Agrees m (.completed r) := by
  show m.step? = some r.view
  rw [ListMachine.step?_of_operation? hOp, hExec]

theorem agrees_interrupted {cause : Interrupt} (hRefuses : m.Refuses cause) (r : Processor) :
    Agrees m (.interrupted r cause) :=
  ⟨hRefuses.step?_eq_none, hRefuses⟩

theorem stack_eq (hNext : m.next = q.view) : m.stack = q.datapath.live :=
  congrArg ListMachine.stack hNext

theorem capacity_eq (hNext : m.next = q.view) : m.capacity = q.datapath.stack.size :=
  congrArg ListMachine.capacity hNext

/-- A word is missing, and the operation does not ask for room before it looks for the word. -/
theorem agrees_underflow (hNext : m.next = q.view) (hOp : m.operation? = some op)
    (hGrows : op.grows = false) (hShort : q.datapath.live.length < op.needs) (r : Processor) :
    Agrees m r.underflow := by
  rw [← stack_eq hNext] at hShort
  apply agrees_interrupted
  refine .underflow hOp hShort ?_
  intro hGrows'
  rw [hGrows] at hGrows'
  cases hGrows'

/-- An operation that grows the stack looks for room first. -/
theorem agrees_ifRoom (h : q.datapath.Bounded) (hNext : m.next = q.view)
    (hOp : m.operation? = some op) (hGrows : op.grows = true) {a : Attempt Processor}
    (hRoom : q.datapath.depth < q.datapath.stack.size → Agrees m a) :
    Agrees m (q.ifRoom a) := by
  have hDepth : m.stack.length = q.datapath.depth := by
    rw [stack_eq hNext]
    exact Datapath.length_live h
  have hCapacity := capacity_eq hNext
  by_cases hr : q.datapath.depth < q.datapath.stack.size
  · rw [ifRoom, if_pos hr]
    exact hRoom hr
  · have hLong : m.capacity ≤ m.stack.length := by omega
    rw [ifRoom, if_neg hr, ← hCapacity]
    exact agrees_interrupted (.overflow hOp hGrows hLong) q

/-- An operation that leaves one word more than it finds. -/
theorem agrees_grown (h : q.datapath.Bounded) (hNext : m.next = q.view)
    (hOp : m.operation? = some op) (hGrows : op.grows = true) {r : Processor} {x : Word}
    {s : List Word} (hLength : s.length = m.stack.length)
    (hExec : m.exec? op = m.next.withStack? (x :: s))
    (hView : q.datapath.depth < q.datapath.stack.size →
      r.view = { q.view with stack := x :: s }) :
    Agrees m (q.ifRoom (.completed r)) := by
  apply agrees_ifRoom h hNext hOp hGrows
  intro hRoom
  have hDepth := Datapath.length_live h
  have hFits : (x :: s).length ≤ m.next.capacity := by
    show (x :: s).length ≤ m.capacity
    rw [List.length_cons, hLength, stack_eq hNext, capacity_eq hNext]
    omega
  apply agrees_completed hOp
  rw [hExec, ListMachine.withStack?, if_pos hFits, hView hRoom, hNext]

/-- There is room for a word, but the one at the top is missing. -/
theorem agrees_ifRoom_underflow (h : q.datapath.Bounded) (hNext : m.next = q.view)
    (hOp : m.operation? = some op) (hGrows : op.grows = true)
    (hShort : q.datapath.live.length < op.needs) (r : Processor) :
    Agrees m (q.ifRoom r.underflow) := by
  apply agrees_ifRoom h hNext hOp hGrows
  intro hRoom
  have hDepth := Datapath.length_live h
  have hCapacity := capacity_eq hNext
  rw [← stack_eq hNext] at hShort hDepth
  apply agrees_interrupted
  refine .underflow hOp hShort ?_
  intro _
  omega

theorem agrees_push (h : q.datapath.Bounded) (hNext : m.next = q.view) {v : Word}
    (hOp : m.operation? = some (.push v)) : Agrees m (q.execute (.push v)) := by
  refine agrees_grown h hNext hOp rfl (s := m.stack) rfl rfl ?_
  intro hRoom
  rw [view_pushed hRoom, stack_eq hNext]
  rfl

theorem agrees_dup (h : q.datapath.Bounded) (hNext : m.next = q.view)
    (hOp : m.operation? = some .dup) : Agrees m (q.execute .dup) := by
  rcases hLive : q.datapath.live with _ | ⟨x, rest⟩
  · have hShort : q.datapath.live.length < Operation.dup.needs := by simp [hLive, Operation.needs]
    simp only [execute, hLive]
    exact agrees_ifRoom_underflow h hNext hOp rfl hShort _
  · have hStack := (stack_eq hNext).trans hLive
    have hExec : m.exec? .dup = m.next.withStack? (x :: m.stack) := by
      simp only [ListMachine.exec?, hStack]
    simp only [execute, hLive]
    refine agrees_grown h hNext hOp rfl rfl hExec ?_
    intro hRoom
    rw [view_pushed hRoom, stack_eq hNext]
    rfl

theorem agrees_push2 (h : q.datapath.Bounded) (hNext : m.next = q.view) {v : Word}
    (hOp : m.operation? = some (.push2 v)) : Agrees m (q.execute (.push2 v)) := by
  rcases hLive : q.datapath.live with _ | ⟨x, rest⟩
  · have hShort : q.datapath.live.length < (Operation.push2 v).needs := by
      simp [hLive, Operation.needs]
    simp only [execute, hLive]
    exact agrees_ifRoom_underflow h hNext hOp rfl hShort _
  · have hStack := (stack_eq hNext).trans hLive
    have hExec : m.exec? (.push2 v) = m.next.withStack? (x :: v :: rest) := by
      simp only [ListMachine.exec?, hStack]
    have hLength : (v :: rest).length = m.stack.length := by
      rw [hStack]
      rfl
    simp only [execute, hLive]
    refine agrees_grown h hNext hOp rfl hLength hExec ?_
    intro hRoom
    -- the old top is copied up first, and the literal is put in the cell that it leaves
    have hb := Datapath.bounded_pushed hRoom x
    have hPushed := Datapath.live_pushed hRoom x
    have hCell : 1 < (q.proceed 3 (q.datapath.pushed x)).view.stack.length := by
      show 1 < (q.datapath.pushed x).live.length
      simp [hPushed, hLive]
    have hView := view_replaced (q := q.proceed 3 (q.datapath.pushed x)) hb hCell 0 v
    rw [view_pushed hRoom] at hView
    refine hView.trans ?_
    simp [view, hLive]

theorem agrees_drop (h : q.datapath.Bounded) (hNext : m.next = q.view)
    (hOp : m.operation? = some .drop) : Agrees m (q.execute .drop) := by
  rcases hLive : q.datapath.live with _ | ⟨x, rest⟩
  · have hShort : q.datapath.live.length < Operation.drop.needs := by simp [hLive, Operation.needs]
    simp only [execute, hLive]
    exact agrees_underflow hNext hOp rfl hShort q
  · have hStack := (stack_eq hNext).trans hLive
    simp only [execute, hLive]
    apply agrees_completed hOp
    simp only [ListMachine.exec?, hStack]
    rw [view_lowered h, hNext]
    simp [view, hLive]

theorem agrees_inc (h : q.datapath.Bounded) (hNext : m.next = q.view)
    (hOp : m.operation? = some .inc) : Agrees m (q.execute .inc) := by
  rcases hLive : q.datapath.live with _ | ⟨x, rest⟩
  · have hShort : q.datapath.live.length < Operation.inc.needs := by simp [hLive, Operation.needs]
    simp only [execute, hLive]
    exact agrees_underflow hNext hOp rfl hShort q
  · have hStack := (stack_eq hNext).trans hLive
    have hTop : 0 < q.view.stack.length := by
      show 0 < q.datapath.live.length
      simp [hLive]
    simp only [execute, hLive]
    apply agrees_completed hOp
    simp only [ListMachine.exec?, hStack]
    rw [view_replaced h hTop, hNext, add_one_eq_wrap]
    simp [view, hLive]

theorem agrees_jz (hNext : m.next = q.view) {target : Nat}
    (hOp : m.operation? = some (.jz target)) : Agrees m (q.execute (.jz target)) := by
  rcases hLive : q.datapath.live with _ | ⟨x, rest⟩
  · have hShort : q.datapath.live.length < (Operation.jz target).needs := by
      simp [hLive, Operation.needs]
    simp only [execute, hLive]
    exact agrees_underflow hNext hOp rfl hShort q
  · have hStack := (stack_eq hNext).trans hLive
    simp only [execute, hLive]
    apply agrees_completed hOp
    simp only [ListMachine.exec?, hStack]
    by_cases hx : x = 0
    · rw [if_pos hx, if_pos hx, view_jumpTo, ← hNext]
      simp only [ListMachine.next, hStack]
    · rw [if_neg hx, if_neg hx, view_proceed, hNext]

theorem agrees_jump (hNext : m.next = q.view) {target : Nat}
    (hOp : m.operation? = some (.jump target)) : Agrees m (q.execute (.jump target)) := by
  simp only [execute]
  apply agrees_completed hOp
  rw [view_jumpTo, ← hNext]
  rfl

theorem agrees_halt (hOp : m.operation? = some .halt) : Agrees m (q.execute .halt) :=
  agrees_interrupted (.halt hOp) q

theorem agrees_alu (h : q.datapath.Bounded) (hNext : m.next = q.view) {alu : AluOp}
    (hOp : m.operation? = some (.alu alu)) : Agrees m (q.execute (.alu alu)) := by
  match hLive : q.datapath.live with
  | [] | [_] =>
    have hShort : q.datapath.live.length < (Operation.alu alu).needs := by
      simp [hLive, Operation.needs]
    simp only [execute, hLive]
    exact agrees_underflow hNext hOp rfl hShort q
  | l :: r :: rest =>
    have hStack := (stack_eq hNext).trans hLive
    have hBelow : 1 < q.view.stack.length := by
      show 1 < q.datapath.live.length
      simp [hLive]
    simp only [execute, hLive]
    apply agrees_completed hOp
    simp only [ListMachine.exec?, hStack]
    -- the result is below the top until the top is given up
    have hb := Datapath.bounded_replaced h 1 (alu.eval l r)
    have hView := view_lowered
      (q := q.proceed 1 (q.datapath.replaced 1 (alu.eval l r))) hb 0 1
    rw [view_replaced h hBelow] at hView
    rw [hNext]
    refine Eq.trans ?_ (congrArg some hView.symm)
    simp [view, hLive]

/-- The address has been latched, and a load goes on with it. -/
theorem agrees_loadFrom (h : q.datapath.Bounded) (hNext : m.next = q.view) {s : List Word}
    (hStack : m.stack = q.datapath.address :: s) (hOp : m.operation? = some .load) :
    Agrees m q.loadFrom := by
  have hExec : m.exec? .load = q.view.load? q.datapath.address s := by
    simp only [ListMachine.exec?, hStack, hNext]
  have hLive : q.datapath.live = q.datapath.address :: s := by rw [← stack_eq hNext, hStack]
  have hTop : 0 < q.datapath.live.length := by simp [hLive]
  simp only [loadFrom]
  by_cases hPort : q.datapath.address = Word.inputPort
  · -- a character from the input port, if one is left
    rw [if_pos hPort]
    have hZero : q.datapath.address = 0 := hPort
    rw [ListMachine.load?, if_pos hZero] at hExec
    cases hInput : q.datapath.input with
    | nil =>
      have hEmpty : m.input = [] := (congrArg ListMachine.input hNext).trans hInput
      rw [hZero] at hStack
      exact agrees_interrupted (.inputExhausted hOp hStack hEmpty) q
    | cons c rest =>
      have hViewInput : q.view.input = c :: rest := hInput
      have hView := view_replaced (q := { q with datapath := { q.datapath with input := rest } })
        h hTop 1 (Word.ofChar c)
      have hLive' : Datapath.live { q.datapath with input := rest } = q.datapath.address :: s :=
        hLive
      rw [hViewInput] at hExec
      apply agrees_completed hOp
      rw [hExec]
      refine Eq.trans ?_ (congrArg some hView.symm)
      simp [view, hLive']
  · -- a memory cell, if there is one with this address
    rw [if_neg hPort]
    have hZero : q.datapath.address ≠ 0 := hPort
    rw [ListMachine.load?, if_neg hZero] at hExec
    rw [cell?_eq]
    by_cases hCell : q.view.HasCell q.datapath.address
    · rw [if_pos hCell] at hExec ⊢
      apply agrees_completed hOp
      rw [hExec, view_replaced h hTop]
      simp [view, hLive]
    · rw [if_neg hCell]
      rw [← hNext] at hCell
      exact agrees_interrupted (.loadOutside hOp hStack hZero hCell) q

theorem agrees_load (h : q.datapath.Bounded) (hNext : m.next = q.view)
    (hOp : m.operation? = some .load) : Agrees m (q.execute .load) := by
  rcases hLive : q.datapath.live with _ | ⟨a, rest⟩
  · have hShort : q.datapath.live.length < Operation.load.needs := by simp [hLive, Operation.needs]
    simp only [execute, hLive]
    exact agrees_underflow hNext hOp rfl hShort q
  · have hStack := (stack_eq hNext).trans hLive
    simp only [execute, hLive]
    exact agrees_loadFrom (q := q.proceed 1 { q.datapath with address := a }) h hNext hStack hOp

/-- The address has been latched, and a store goes on with it. -/
theorem agrees_storeTo (h : q.datapath.Bounded) (hNext : m.next = q.view) {v : Word}
    {s : List Word} (hStack : m.stack = v :: q.datapath.address :: s)
    (hOp : m.operation? = some .pop) : Agrees m (q.storeTo v) := by
  have hExec : m.exec? .pop = q.view.store? v q.datapath.address s := by
    simp only [ListMachine.exec?, hStack, hNext]
  have hLive : q.datapath.live = v :: q.datapath.address :: s := by rw [← stack_eq hNext, hStack]
  simp only [storeTo]
  by_cases hPort : q.datapath.address = Word.outputPort
  · -- the word goes to the output port
    rw [if_pos hPort]
    have hOne : q.datapath.address = 1 := hPort
    rw [ListMachine.store?, if_pos hOne] at hExec
    have hView := view_lowered
      (q := { q with datapath := { q.datapath with output := q.datapath.output.push v } }) h 1 2
    have hLive' : Datapath.live { q.datapath with output := q.datapath.output.push v } =
        v :: q.datapath.address :: s := hLive
    apply agrees_completed hOp
    rw [hExec]
    refine Eq.trans ?_ (congrArg some hView.symm)
    simp [view, hLive']
  · -- it goes to a memory cell, if there is one with this address
    rw [if_neg hPort]
    have hOne : q.datapath.address ≠ 1 := hPort
    rw [ListMachine.store?, if_neg hOne] at hExec
    rw [cell?_eq]
    by_cases hCell : q.view.HasCell q.datapath.address
    · rw [if_pos hCell] at hExec ⊢
      have hView := view_lowered
        (q := { q with datapath := { q.datapath with
          memory := q.datapath.memory.setIfInBounds q.datapath.address.toInt.toNat v } }) h 1 2
      have hLive' : Datapath.live { q.datapath with
          memory := q.datapath.memory.setIfInBounds q.datapath.address.toInt.toNat v } =
          v :: q.datapath.address :: s := hLive
      apply agrees_completed hOp
      rw [hExec]
      refine Eq.trans ?_ (congrArg some hView.symm)
      simp only [view, hLive', Array.toList_setIfInBounds, List.drop_succ_cons, List.drop_zero]
    · rw [if_neg hCell]
      rw [← hNext] at hCell
      exact agrees_interrupted (.storeOutside hOp hStack hOne hCell) q

theorem agrees_pop (h : q.datapath.Bounded) (hNext : m.next = q.view)
    (hOp : m.operation? = some .pop) : Agrees m (q.execute .pop) := by
  match hLive : q.datapath.live with
  | [] | [_] =>
    have hShort : q.datapath.live.length < Operation.pop.needs := by simp [hLive, Operation.needs]
    simp only [execute, hLive]
    exact agrees_underflow hNext hOp rfl hShort q
  | v :: a :: rest =>
    have hStack := (stack_eq hNext).trans hLive
    simp only [execute, hLive]
    exact agrees_storeTo (q := q.proceed 1 { q.datapath with address := a }) h hNext hStack hOp

/-- What an operation does after its fetch agrees with the list machine. -/
theorem execute_agrees (h : q.datapath.Bounded) (hNext : m.next = q.view)
    (hOp : m.operation? = some op) : Agrees m (q.execute op) := by
  cases op with
  | halt => exact agrees_halt hOp
  | jump target => exact agrees_jump hNext hOp
  | jz target => exact agrees_jz hNext hOp
  | push v => exact agrees_push h hNext hOp
  | push2 v => exact agrees_push2 h hNext hOp
  | pop => exact agrees_pop h hNext hOp
  | load => exact agrees_load h hNext hOp
  | drop => exact agrees_drop h hNext hOp
  | dup => exact agrees_dup h hNext hOp
  | inc => exact agrees_inc h hNext hOp
  | alu op => exact agrees_alu h hNext hOp

end

-- ---------------------------------------------------------------------------
-- One cycle
-- ---------------------------------------------------------------------------

section

variable {p q : Processor}

/-- Within bounds a cycle agrees with the list machine. -/
theorem cycle_agrees (h : p.datapath.Bounded) : Agrees p.view p.cycle := by
  cases hFetch : p.code[p.pc]? with
  | none =>
    have hCode : p.view.code[p.view.pc]? = none := by rw [code_view_getElem?, hFetch]
    have hPc : p.view.code.length ≤ p.view.pc := List.getElem?_eq_none_iff.mp hCode
    rw [cycle_of_getElem?_eq_none hFetch]
    exact agrees_interrupted (.pcOutOfRange hPc) p
  | some inst =>
    have hCode : p.view.code[p.view.pc]? = some inst := by rw [code_view_getElem?, hFetch]
    cases hDecode : inst.operation with
    | error fault =>
      rw [cycle_of_operation_eq_error hFetch hDecode]
      exact agrees_interrupted (.undecodable hCode hDecode) p
    | ok op =>
      have hOp : p.view.operation? = some op := by
        simp only [ListMachine.operation?, hCode, hDecode]
      rw [cycle_eq_execute h hFetch hDecode]
      exact execute_agrees (q := p.fetch inst) h (view_fetch p inst).symm hOp

/-- A cycle completes where the list machine has a step, and nowhere else. -/
theorem cycle_completed_iff (h : p.datapath.Bounded) (m : ListMachine) :
    (∃ q, p.cycle = .completed q ∧ q.view = m) ↔ p.view.step? = some m := by
  have hAgrees := cycle_agrees h
  constructor
  · rintro ⟨q, hCycle, rfl⟩
    rwa [hCycle] at hAgrees
  · intro hStep
    cases hCycle : p.cycle with
    | completed q =>
      rw [hCycle] at hAgrees
      have hView : p.view.step? = some q.view := hAgrees
      rw [hStep] at hView
      exact ⟨q, rfl, (Option.some.inj hView).symm⟩
    | interrupted q cause =>
      rw [hCycle] at hAgrees
      have hNone : p.view.step? = none := hAgrees.1
      rw [hStep] at hNone
      cases hNone

/-- A cycle is interrupted by the cause for which the list machine has no step. -/
theorem cycle_interrupted_iff (h : p.datapath.Bounded) (cause : Interrupt) :
    (∃ q, p.cycle = .interrupted q cause) ↔ p.view.Refuses cause := by
  have hAgrees := cycle_agrees h
  constructor
  · rintro ⟨q, hCycle⟩
    rw [hCycle] at hAgrees
    exact hAgrees.2
  · intro hRefuses
    cases hCycle : p.cycle with
    | completed q =>
      rw [hCycle] at hAgrees
      have hStep : p.view.step? = some q.view := hAgrees
      rw [hRefuses.step?_eq_none] at hStep
      cases hStep
    | interrupted q other =>
      rw [hCycle] at hAgrees
      rw [hRefuses.unique hAgrees.2]
      exact ⟨q, rfl⟩

end

-- ---------------------------------------------------------------------------
-- Runs
-- ---------------------------------------------------------------------------

theorem bounded_cycle {p : Processor} (h : p.datapath.Bounded) : p.cycle.state.datapath.Bounded :=
  datapath_cycle (P := Datapath.Bounded) (fun _ s hd => Datapath.bounded_drive hd s) p h

/-- As long as no cycle is interrupted, the cycles lead where the steps of the list machine lead. -/
theorem steps?_eq_some_iff {p : Processor} (h : p.datapath.Bounded) (n : Nat) (m : ListMachine) :
    p.view.steps? n = some m ↔
      (∀ k < n, (p.cycles k).cycle.cause? = none) ∧ (p.cycles n).view = m := by
  induction n generalizing p with
  | zero => simp [ListMachine.steps?, cycles]
  | succ n ih =>
    have hAgrees := cycle_agrees h
    have hBounded := bounded_cycle h
    cases hCycle : p.cycle with
    | completed q =>
      rw [hCycle] at hAgrees
      rw [hCycle, Attempt.state_completed] at hBounded
      have hNext : ∀ k, p.cycles (k + 1) = q.cycles k := by
        intro k
        rw [cycles, hCycle, Attempt.state_completed]
      rw [ListMachine.steps?_succ_of_step? hAgrees, ih hBounded, hNext, Nat.forall_lt_succ_left]
      have hFirst : (p.cycles 0).cycle.cause? = none := by
        rw [cycles, hCycle]
        rfl
      simp only [hNext, hFirst, true_and]
    | interrupted q cause =>
      -- the list machine has no first step, and the first cycle is interrupted
      rw [hCycle] at hAgrees
      have hNone : p.view.steps? (n + 1) = none := by
        rw [ListMachine.steps?, hAgrees.1, Option.bind_none]
      rw [hNone]
      constructor
      · intro hSome
        cases hSome
      · rintro ⟨hComplete, _⟩
        have hFirst := hComplete 0 (Nat.zero_lt_succ n)
        rw [cycles, hCycle] at hFirst
        cases hFirst

end Processor

/-- How a run of the list machine ends that has counted `n` instructions before. Where it is cut off
is not for the list machine to say, since it has no clock. -/
inductive ListMachine.EndsWith (m : ListMachine) (n limit : Nat) :
    Except RunFault Report → Prop where
  | halted {k ticks : Nat} {m' : ListMachine} :
    m.steps? k = some m' → m'.Refuses .halt →
    EndsWith m n limit (.ok ⟨m'.output, n + k + 1, ticks, .halted⟩)
  | inputExhausted {k ticks : Nat} {m' : ListMachine} :
    m.steps? k = some m' → m'.Refuses .inputExhausted →
    EndsWith m n limit (.ok ⟨m'.output, n + k + 1, ticks, .inputExhausted⟩)
  | tickLimitExceeded {k ticks : Nat} {m' : ListMachine} :
    m.steps? k = some m' → limit ≤ ticks →
    EndsWith m n limit (.ok ⟨m'.output, n + k, ticks, .tickLimitExceeded⟩)
  | fault {k : Nat} {m' : ListMachine} {cause : Fault} :
    m.steps? k = some m' → m'.Refuses (.fault cause) →
    EndsWith m n limit (.error (.fault cause))

theorem ListMachine.EndsWith.of_step? {m m' : ListMachine} (h : m.step? = some m') {n limit : Nat}
    {result : Except RunFault Report} (hEnds : m'.EndsWith (n + 1) limit result) :
    m.EndsWith n limit result := by
  cases hEnds with
  | @halted k ticks last hSteps hRefuses =>
    have hCount : n + 1 + k + 1 = n + (k + 1) + 1 := by omega
    rw [hCount]
    exact .halted ((steps?_succ_of_step? h k).trans hSteps) hRefuses
  | @inputExhausted k ticks last hSteps hRefuses =>
    have hCount : n + 1 + k + 1 = n + (k + 1) + 1 := by omega
    rw [hCount]
    exact .inputExhausted ((steps?_succ_of_step? h k).trans hSteps) hRefuses
  | @tickLimitExceeded k ticks last hSteps hLimit =>
    have hCount : n + 1 + k = n + (k + 1) := by omega
    rw [hCount]
    exact .tickLimitExceeded ((steps?_succ_of_step? h k).trans hSteps) hLimit
  | @fault k last cause hSteps hRefuses =>
    exact .fault ((steps?_succ_of_step? h k).trans hSteps) hRefuses

namespace Session

variable {options : Options} {processor p : Processor} {instructions : Nat} {warned : Bool}
  {events : Array Event}

theorem run_of_completed (hLimit : ¬ options.tickLimit ≤ processor.tick)
    (hCycle : processor.cycle = .completed p) :
    run options ⟨processor, instructions, warned, events⟩ =
      run options ⟨p, instructions + 1, warned || options.debugLimit ≤ p.tick,
        events ++ cycleEvents options warned p⟩ := by
  rw [run, if_neg hLimit]
  split
  · rename_i q hq
    rw [hCycle] at hq
    cases hq
    rfl
  · rename_i q cause hq
    rw [hCycle] at hq
    cases hq

theorem run_of_interrupted {cause : Interrupt} (hLimit : ¬ options.tickLimit ≤ processor.tick)
    (hCycle : processor.cycle = .interrupted p cause) :
    run options ⟨processor, instructions, warned, events⟩ =
      interrupt p (instructions + 1) events cause := by
  rw [run, if_neg hLimit]
  split
  · rename_i q hq
    rw [hCycle] at hq
    cases hq
  · rename_i q other hq
    rw [hCycle] at hq
    cases hq
    rfl

/-- A session ends as the list machine ends that its processor shows. -/
theorem run_endsWith (options : Options) (s : Session) (h : s.processor.datapath.Bounded) :
    s.processor.view.EndsWith s.instructions options.tickLimit (s.run options).result := by
  induction s using Session.run.induct options with
  | case1 processor instructions warned events hLimit =>
    rw [run, if_pos hLimit]
    exact .tickLimitExceeded (k := 0) rfl hLimit
  | case2 processor instructions warned events hLimit p hCycle ih =>
    -- one step of the list machine, and then the rest of the session
    have hAgrees := Processor.cycle_agrees h
    have hBounded := Processor.bounded_cycle h
    rw [hCycle] at hAgrees hBounded
    rw [run_of_completed hLimit hCycle]
    exact ListMachine.EndsWith.of_step? hAgrees (ih hBounded)
  | case3 processor instructions warned events hLimit p cause hCycle =>
    have hAgrees := Processor.cycle_agrees h
    rw [hCycle] at hAgrees
    have hRefuses : processor.view.Refuses cause := hAgrees.2
    -- the report shows the output of the interrupted cycle, the list machine the one before it
    have hOutput := (Processor.sameStore_of_cycle h hCycle).2.2
    have hView : processor.view.output = p.datapath.output.toList := by
      show processor.datapath.output.toList = _
      rw [hOutput]
    rw [run_of_interrupted hLimit hCycle]
    cases cause with
    | halt =>
      show ListMachine.EndsWith _ _ _ (.ok ⟨p.datapath.output.toList, _, _, _⟩)
      rw [← hView]
      exact ListMachine.EndsWith.halted (k := 0) rfl hRefuses
    | inputExhausted =>
      show ListMachine.EndsWith _ _ _ (.ok ⟨p.datapath.output.toList, _, _, _⟩)
      rw [← hView]
      exact ListMachine.EndsWith.inputExhausted (k := 0) rfl hRefuses
    | fault cause => exact ListMachine.EndsWith.fault (k := 0) rfl hRefuses

end Session

/-- A program runs as the list machine runs, which starts with an empty stack. -/
theorem simulate_endsWith (image : Image) (input : List Char) (options : Options)
    (hStack : 0 < options.stackSize) :
    (ListMachine.initial image options.stackSize input).EndsWith 0 options.tickLimit
      (simulate image input options).result := by
  have hBounded : (Session.initial image input options).processor.datapath.Bounded :=
    Datapath.bounded_initial image.data options.stackSize input
  have hRun := Session.run_endsWith options (Session.initial image input options) hBounded
  rw [simulate, if_neg (by omega)]
  simpa only [Session.initial, Processor.view_initial] using hRun

/-- **Refinement**: within bounds a cycle completes exactly when the list machine has a step, and
shows where that step leads; it is interrupted exactly by the cause for which the list machine has
none; cycles that are not interrupted follow its steps for any number of them; and a session ends
the way it ends. -/
theorem Processor.refines_listMachine {p : Processor} (h : p.datapath.Bounded) :
    (∀ m, (∃ q, p.cycle = .completed q ∧ q.view = m) ↔ p.view.step? = some m) ∧
      (∀ cause, (∃ q, p.cycle = .interrupted q cause) ↔ p.view.Refuses cause) ∧
      (∀ n m, p.view.steps? n = some m ↔
        (∀ k < n, (p.cycles k).cycle.cause? = none) ∧ (p.cycles n).view = m) ∧
      ∀ (options : Options) (s : Session), s.processor = p →
        p.view.EndsWith s.instructions options.tickLimit (s.run options).result := by
  refine ⟨cycle_completed_iff h, cycle_interrupted_iff h, steps?_eq_some_iff h, ?_⟩
  rintro options s rfl
  exact Session.run_endsWith options s h

/-- A word is copied into a cell that was in use before. -/
theorem Processor.refines_listMachine_dup :
    let d : Datapath := ⟨#[], #[3, 9], 1, 0, [], #[]⟩
    let p : Processor := ⟨#[⟨0, .dup, none⟩], 0, none, 0, d⟩
    d.Bounded ∧ p.view.stack = [3] ∧ ∃ q, p.cycle = .completed q ∧ q.view.stack = [3, 3] := by
  intro d p
  have hBounded : p.datapath.Bounded := by decide
  have hStep : p.view.step? = some { p.view with pc := 1, stack := [3, 3] } := by decide
  obtain ⟨q, hCycle, hView⟩ := ((refines_listMachine hBounded).1 _).mpr hStep
  refine ⟨hBounded, rfl, q, hCycle, ?_⟩
  rw [hView]

end StackProcessor
