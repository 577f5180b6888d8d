import StackProcessor.Proofs.Machine.Execution

/-!
# StackProcessor — interrupted cycles

Nothing is rolled back when a cycle is interrupted, and nothing has to be: whatever can interrupt an
operation does so before the first signal that writes to the memory, to a stack cell or to a port.
What the registers show is how far the operation got, in three ways (`Leaves`). If the cause is
`isAtAddress`, a character or a cell was looked for in vain: the address was latched
(`triedAddress?`), and that took a tick. If the operation `CopiesNothing`, the pointer was moved up
over an empty stack, and that took a tick as well. Otherwise only the fetch is left. A cause that
`isBeforeFetch` leaves the processor as it was.

## Results
- `Processor.leaves_of_execute` : what an interrupted operation leaves of the registers.
- `Processor.interrupted_cycle_commits_nothing` : what an interrupted cycle leaves of the processor,
  for every code and every state that is `Bounded`.
-/

namespace StackProcessor

namespace Interrupt

/-- Whether the cycle got no record into the instruction register. -/
def isBeforeFetch : Interrupt → Bool
  | .ofRuntime (.pcOutOfRange _) | .fault (.decode _) => true
  | _ => false

/-- Whether an address was tried in vain: nothing waits at the port, or there is no such cell. -/
def isAtAddress : Interrupt → Bool
  | .inputExhausted | .ofRuntime (.badAddress _) => true
  | _ => false

end Interrupt

namespace Processor

/-- The address that an operation tries, if it tries one and the stack holds it. -/
def triedAddress? (p : Processor) : Operation → Option Word
  | .load => p.datapath.top?
  | .pop => p.datapath.second?
  | _ => none

/-- The operation is to copy the top of a stack that has room but no top. -/
def CopiesNothing (p : Processor) (op : Operation) : Prop :=
  (op = .dup ∨ ∃ v, op = .push2 v) ∧ p.datapath.stackPointer = -1 ∧ 1 ≤ p.datapath.stack.size

/-- What an interrupted operation leaves, which found the processor as `p` after the fetch. -/
inductive Leaves (p : Processor) (op : Operation) : Interrupt → Processor → Prop where
  | asFound {cause : Interrupt} :
    cause.isBeforeFetch = false → cause.isAtAddress = false → ¬ p.CopiesNothing op →
    Leaves p op cause p
  | latched {cause : Interrupt} {a : Word} :
    p.triedAddress? op = some a →
    cause = .inputExhausted ∨ cause = .ofRuntime (.badAddress a) →
    Leaves p op cause (p.proceed 1 { p.datapath with address := a })
  | raised : p.CopiesNothing op →
    Leaves p op (.ofRuntime .stackUnderflow) (p.proceed 1 p.datapath.raised)

-- ---------------------------------------------------------------------------
-- Interrupted operations
-- ---------------------------------------------------------------------------

section

variable {p q : Processor} {op : Operation} {cause : Interrupt}

theorem not_copiesNothing (hDup : op ≠ .dup) (hPush2 : ∀ v, op ≠ .push2 v) :
    ¬ p.CopiesNothing op := by
  rintro ⟨rfl | ⟨v, rfl⟩, _⟩
  · exact hDup rfl
  · exact hPush2 v rfl

theorem leaves_of_underflow (hCopies : ¬ p.CopiesNothing op)
    (h : p.underflow = .interrupted q cause) : Leaves p op cause q := by
  cases h
  exact .asFound rfl rfl hCopies

/-- Without room nothing has happened. With room, what follows decides. -/
theorem leaves_of_ifRoom {a : Attempt Processor} (h : p.ifRoom a = .interrupted q cause)
    (hRoom : p.datapath.depth < p.datapath.stack.size → a = .interrupted q cause →
      Leaves p op cause q) : Leaves p op cause q := by
  unfold ifRoom at h
  split at h
  · rename_i hLess
    exact hRoom hLess h
  · rename_i hFull
    cases h
    refine .asFound rfl rfl ?_
    rintro ⟨_, hPointer, hSize⟩
    unfold Datapath.stackPointer at hPointer
    omega

/-- A copy finds no top exactly when the stack is empty, and the pointer is up by then. -/
theorem leaves_of_copy (hBounded : p.datapath.Bounded) {copied : Word → Attempt Processor}
    (hOp : op = .dup ∨ ∃ v, op = .push2 v) (hCopied : ∀ x, ∃ r, copied x = .completed r)
    (h : p.ifRoom (match p.datapath.live with
      | x :: _ => copied x
      | [] => underflow (p.proceed 1 p.datapath.raised)) = .interrupted q cause) :
    Leaves p op cause q := by
  apply leaves_of_ifRoom h
  intro hRoom hCopy
  rcases hLive : p.datapath.live with _ | ⟨x, rest⟩
  · rw [hLive] at hCopy
    cases hCopy
    have hDepth := Datapath.length_live hBounded
    rw [hLive, List.length_nil] at hDepth
    refine .raised ⟨hOp, ?_, by omega⟩
    unfold Datapath.stackPointer
    omega
  · obtain ⟨r, hr⟩ := hCopied x
    simp only [hLive, hr] at hCopy
    cases hCopy

theorem leaves_of_load (hBounded : p.datapath.Bounded)
    (h : p.execute .load = .interrupted q cause) : Leaves p .load cause q := by
  have hTop : p.triedAddress? .load = p.datapath.live[0]? := Datapath.top?_eq hBounded
  simp only [execute] at h
  rcases hLive : p.datapath.live with _ | ⟨a, rest⟩
  · rw [hLive] at h
    exact leaves_of_underflow (not_copiesNothing (by simp) (by simp)) h
  · rw [hLive] at h hTop
    simp only [loadFrom] at h
    repeat' split at h
    all_goals cases h
    · exact .latched hTop (Or.inl rfl)
    · exact .latched hTop (Or.inr rfl)

theorem leaves_of_pop (hBounded : p.datapath.Bounded)
    (h : p.execute .pop = .interrupted q cause) : Leaves p .pop cause q := by
  have hSecond : p.triedAddress? .pop = p.datapath.live[1]? := Datapath.second?_eq hBounded
  simp only [execute] at h
  rcases hLive : p.datapath.live with _ | ⟨v, _ | ⟨a, rest⟩⟩
  · rw [hLive] at h
    exact leaves_of_underflow (not_copiesNothing (by simp) (by simp)) h
  · rw [hLive] at h
    exact leaves_of_underflow (not_copiesNothing (by simp) (by simp)) h
  · rw [hLive] at h hSecond
    simp only [storeTo] at h
    repeat' split at h
    all_goals cases h
    exact .latched hSecond (Or.inr rfl)

/-- What an interrupted operation leaves. -/
theorem leaves_of_execute (hBounded : p.datapath.Bounded)
    (h : p.execute op = .interrupted q cause) : Leaves p op cause q := by
  cases op with
  | halt =>
    cases h
    exact .asFound rfl rfl (not_copiesNothing (by simp) (by simp))
  | jump target => cases h
  | push v =>
    apply leaves_of_ifRoom h
    intro _ hPush
    cases hPush
  | dup => exact leaves_of_copy hBounded (Or.inl rfl) (fun x => ⟨_, rfl⟩) h
  | push2 v => exact leaves_of_copy hBounded (Or.inr ⟨v, rfl⟩) (fun x => ⟨_, rfl⟩) h
  | load => exact leaves_of_load hBounded h
  | pop => exact leaves_of_pop hBounded h
  | jz _ | drop | inc | alu _ =>
    -- a missing word is noticed before anything else is done
    simp only [execute] at h
    split at h
    · cases h
    · exact leaves_of_underflow (not_copiesNothing (by simp) (by simp)) h

-- ---------------------------------------------------------------------------
-- What is left
-- ---------------------------------------------------------------------------

namespace Leaves

theorem isBeforeFetch_eq_false (h : Leaves p op cause q) : cause.isBeforeFetch = false := by
  cases h with
  | asFound hFetch _ _ => exact hFetch
  | latched _ hCause => rcases hCause with rfl | rfl <;> rfl
  | raised _ => rfl

/-- All cells and both ports are as they were found, and so are the record and the counter. -/
theorem same (h : Leaves p op cause q) :
    (q.datapath.memory = p.datapath.memory ∧ q.datapath.stack = p.datapath.stack ∧
      q.datapath.output = p.datapath.output ∧ q.datapath.input = p.datapath.input) ∧
    q.register = p.register ∧ q.pc = p.pc := by
  cases h with
  | asFound _ _ _ => exact ⟨⟨rfl, rfl, rfl, rfl⟩, rfl, rfl⟩
  | latched _ _ => exact ⟨⟨rfl, rfl, rfl, rfl⟩, rfl, rfl⟩
  | raised _ => exact ⟨⟨rfl, rfl, rfl, rfl⟩, rfl, rfl⟩

theorem of_isAtAddress (h : Leaves p op cause q) (hAddress : cause.isAtAddress = true) :
    p.triedAddress? op = some q.datapath.address ∧
      (∀ a, cause = .ofRuntime (.badAddress a) → a = q.datapath.address) ∧
      q.datapath.stackPointer = p.datapath.stackPointer ∧ q.tick = p.tick + 1 := by
  cases h with
  | asFound _ hElsewhere _ =>
    rw [hElsewhere] at hAddress
    cases hAddress
  | latched hTried hCause =>
    refine ⟨hTried, ?_, rfl, rfl⟩
    rintro b rfl
    rcases hCause with hCause | hCause
    · cases hCause
    · cases hCause
      rfl
  | raised _ => cases hAddress

theorem of_copiesNothing (h : Leaves p op cause q) (hCopies : p.CopiesNothing op) :
    q.datapath.address = p.datapath.address ∧ q.datapath.stackPointer = 0 ∧
      q.tick = p.tick + 1 := by
  cases h with
  | asFound _ _ hNot => exact absurd hCopies hNot
  | latched hTried _ =>
    -- a copy tries no address
    rcases hCopies.1 with rfl | ⟨v, rfl⟩ <;> cases hTried
  | raised _ =>
    -- one cell is in use where none was
    have hEmpty : p.datapath.stackPointer = -1 := hCopies.2.1
    refine ⟨rfl, ?_, rfl⟩
    show ((p.datapath.depth + 1 : Nat) : Int) - 1 = 0
    unfold Datapath.stackPointer at hEmpty
    omega

theorem of_neither (h : Leaves p op cause q) (hAddress : cause.isAtAddress = false)
    (hCopies : ¬ p.CopiesNothing op) : q = p := by
  cases h with
  | asFound _ _ _ => rfl
  | latched _ hCause => rcases hCause with rfl | rfl <;> cases hAddress
  | raised hCopy => exact absurd hCopy hCopies

end Leaves

theorem op_of_triedAddress? {a : Word} (h : p.triedAddress? op = some a) :
    op = .load ∨ op = .pop := by
  unfold triedAddress? at h
  split at h
  · exact Or.inl rfl
  · exact Or.inr rfl
  · cases h

end

-- ---------------------------------------------------------------------------
-- Interrupted cycles
-- ---------------------------------------------------------------------------

/-- A cycle is interrupted before the fetch, and then nothing at all has happened, or after it. -/
theorem cycle_interrupted_cases {p q : Processor} {cause : Interrupt} (h : p.datapath.Bounded)
    (hCycle : p.cycle = .interrupted q cause) :
    (cause.isBeforeFetch = true ∧ q = p) ∨
      ∃ inst op, p.code[p.pc]? = some inst ∧ inst.operation = .ok op ∧
        Leaves (p.fetch inst) op cause q := by
  rcases hFetch : p.code[p.pc]? with _ | inst
  · rw [cycle_of_getElem?_eq_none hFetch] at hCycle
    cases hCycle
    exact Or.inl ⟨rfl, rfl⟩
  · rcases hOp : inst.operation with fault | op
    · rw [cycle_of_operation_eq_error hFetch hOp] at hCycle
      cases hCycle
      exact Or.inl ⟨rfl, rfl⟩
    · rw [cycle_eq_execute h hFetch hOp] at hCycle
      have hBounded : (p.fetch inst).datapath.Bounded := h
      exact Or.inr ⟨inst, op, rfl, hOp, leaves_of_execute hBounded hCycle⟩

/-- **Atomicity**: an interrupted cycle has changed no memory cell and no stack cell, sent nothing
and taken nothing. Before the fetch it has changed nothing at all. After it the record is in the
instruction register and the counter behind it, and the other registers are as they were but for two
cases, which take two ticks: an address that was tried in vain stays latched, and the pointer stays
at the lowest cell if a word was to be copied from an empty stack that has room. -/
theorem interrupted_cycle_commits_nothing {p q : Processor} {cause : Interrupt}
    (h : p.datapath.Bounded) (hCycle : p.cycle = .interrupted q cause) :
    (q.datapath.memory = p.datapath.memory ∧ q.datapath.stack = p.datapath.stack ∧
      q.datapath.output = p.datapath.output ∧ q.datapath.input = p.datapath.input) ∧
    (cause.isBeforeFetch = true → q = p) ∧
    (cause.isBeforeFetch = false → ∃ inst op,
      p.code[p.pc]? = some inst ∧ inst.operation = .ok op ∧
      q.register = some inst ∧ q.pc = p.pc + 1 ∧
      (cause.isAtAddress = true →
        (op = .load ∨ op = .pop) ∧ p.triedAddress? op = some q.datapath.address ∧
        (∀ a, cause = .ofRuntime (.badAddress a) → a = q.datapath.address) ∧
        q.datapath.stackPointer = p.datapath.stackPointer ∧ q.tick = p.tick + 2) ∧
      (p.CopiesNothing op →
        q.datapath.address = p.datapath.address ∧ q.datapath.stackPointer = 0 ∧
        q.tick = p.tick + 2) ∧
      (cause.isAtAddress = false → ¬ p.CopiesNothing op →
        q.datapath.address = p.datapath.address ∧
        q.datapath.stackPointer = p.datapath.stackPointer ∧ q.tick = p.tick + 1)) := by
  rcases cycle_interrupted_cases h hCycle with ⟨hBefore, rfl⟩ | ⟨inst, op, hFetch, hOp, hLeaves⟩
  · refine ⟨⟨rfl, rfl, rfl, rfl⟩, fun _ => rfl, ?_⟩
    intro hAfter
    rw [hBefore] at hAfter
    cases hAfter
  · obtain ⟨hCells, hRegister, hPc⟩ := hLeaves.same
    refine ⟨hCells, ?_, fun _ => ⟨inst, op, hFetch, hOp, hRegister, hPc, ?_, ?_, ?_⟩⟩
    · intro hBefore
      rw [hLeaves.isBeforeFetch_eq_false] at hBefore
      cases hBefore
    -- the clock stood one tick further after the fetch
    · intro hAddress
      obtain ⟨hTried, hReported, hPointer, hTick⟩ := hLeaves.of_isAtAddress hAddress
      exact ⟨op_of_triedAddress? hTried, hTried, hReported, hPointer, hTick⟩
    · intro hCopies
      exact hLeaves.of_copiesNothing hCopies
    · intro hElsewhere hNothing
      obtain rfl := hLeaves.of_neither hElsewhere hNothing
      exact ⟨rfl, rfl, rfl⟩

/-- A word is to be stored at an address that the memory does not have. -/
theorem interrupted_cycle_commits_nothing_pop :
    let d : Datapath := ⟨#[5, 6], #[9, 3, 8], 2, 0, ['x'], #[7]⟩
    let p : Processor := ⟨#[⟨4, .pop, none⟩], 0, none, 5, d⟩
    let q : Processor := ⟨p.code, 1, some ⟨4, .pop, none⟩, 7, { d with address := 9 }⟩
    d.Bounded ∧ p.cycle = .interrupted q (.ofRuntime (.badAddress 9)) ∧
      q.datapath.memory = d.memory ∧ q.datapath.stack = d.stack ∧
      p.triedAddress? .pop = some q.datapath.address := by
  intro d p q
  have hBounded : p.datapath.Bounded := by decide
  have hCycle : p.cycle = .interrupted q (.ofRuntime (.badAddress 9)) := by decide
  obtain ⟨⟨hMemory, hStack, _, _⟩, _, hAfter⟩ := interrupted_cycle_commits_nothing hBounded hCycle
  obtain ⟨inst, op, hFetch, hOp, _, _, hAddress, _, _⟩ := hAfter rfl
  cases hFetch
  cases hOp
  exact ⟨hBounded, hCycle, hMemory, hStack, (hAddress rfl).2.1⟩

end Processor

end StackProcessor
