import StackProcessor.Proofs.Machine.Access
import StackProcessor.Proofs.Machine.ControlFlow

/-!
# StackProcessor — variants of a machine

What a program does must not depend on what it has no way to notice. A `Variation` lists what can be
changed about a machine without its noticing: the numbers that the records carry, the first memory
cell, which stands behind the input port, and whatever lies beyond the end of the stack, of the
memory, of the code and of the input. `p.Variant z q` says that `q` is such a machine beside `p`,
and that `p` is `Bounded`.

A variant keeps step with the machine it was made from, signal by signal (`Keeps`), up to the moment
when that machine reports an end which the variant does not have. Those ends are the causes that
`Variation.Lifts`; after one of them nothing is said of the variant (`Attempt.Follows`).

## Results
- `Datapath.Variant.drive` : a signal does the same to a datapath and to a variant of it.
- `Processor.Variant.perform` : so do the steps of an operation.
- `Processor.Variant.cycle`, `Processor.Variant.failToDecode` : so does a cycle, and a record that
  cannot be executed is reported by the number which it carries.
-/

namespace StackProcessor

/-- What a variant of a machine has in its own way. -/
structure Variation where
  /-- Whether records may carry other numbers. -/
  renumbers : Bool := false
  /-- The stack cells above the others. -/
  cells : Array Word := #[]
  /-- How many memory cells lie behind the others. -/
  memory : Nat := 0
  /-- How many records lie behind the others. -/
  code : Nat := 0
  /-- The characters that wait behind the others. -/
  input : List Char := []

namespace Variation

/-- What the machine reports when it comes to an end that its variant does not have. -/
def Lifts (z : Variation) : Interrupt → Prop
  | .inputExhausted => z.input ≠ []
  | .ofRuntime (.stackOverflow _) => z.cells ≠ #[]
  | .ofRuntime (.badAddress _) => z.memory ≠ 0
  | .ofRuntime (.pcOutOfRange _) => z.code ≠ 0
  | _ => False

theorem eq_inputExhausted_of_lifts {z : Variation} {cause : Interrupt} (h : z.Lifts cause)
    (hCells : z.cells = #[]) (hMemory : z.memory = 0) (hCode : z.code = 0) :
    cause = .inputExhausted ∧ z.input ≠ [] := by
  unfold Lifts at h
  split at h
  · exact ⟨rfl, h⟩
  · exact absurd hCells h
  · exact absurd hMemory h
  · exact absurd hCode h
  · exact h.elim

/-- The record `y` may stand in the place of `x`. -/
structure Replaces (z : Variation) (x y : Instruction) : Prop where
  opcode : y.opcode = x.opcode
  arg : y.arg = x.arg
  index : z.renumbers = false → y.index = x.index

variable {z : Variation} {x y : Instruction}

theorem Replaces.refl (z : Variation) (x : Instruction) : z.Replaces x x := ⟨rfl, rfl, fun _ => rfl⟩

theorem Replaces.eq (h : z.Replaces x y) (hNumbers : z.renumbers = false) : y = x := by
  obtain ⟨index, opcode, arg⟩ := x
  obtain ⟨index', opcode', arg'⟩ := y
  obtain ⟨rfl, rfl, hIndex⟩ := h
  obtain rfl := hIndex hNumbers
  rfl

theorem Replaces.operation_of_ok (h : z.Replaces x y) {op : Operation}
    (hOp : x.operation = .ok op) : y.operation = .ok op := by
  unfold Instruction.operation at hOp ⊢
  rw [h.opcode, h.arg]
  split at hOp
  · exact hOp
  · cases hOp

/-- Neither record can be executed, for the same reason, and each is reported by its own number. -/
theorem Replaces.operation_of_error (h : z.Replaces x y) {fault : DecodeFault}
    (hOp : x.operation = .error fault) :
    ∃ reason, fault = ⟨x.index, reason⟩ ∧ y.operation = .error ⟨y.index, reason⟩ := by
  unfold Instruction.operation at hOp ⊢
  rw [h.opcode, h.arg]
  split at hOp
  · cases hOp
  · rename_i reason _
    cases hOp
    exact ⟨reason, rfl, rfl⟩

end Variation

-- ---------------------------------------------------------------------------
-- Attempts
-- ---------------------------------------------------------------------------

namespace Attempt

/-- The second attempt goes the way of the first. If the first was interrupted by one of the causes
that are lifted, there is nothing that the second has to keep to. -/
inductive Follows {σ : Type} (lifted : Interrupt → Prop) (R : σ → σ → Prop) :
    Attempt σ → Attempt σ → Prop where
  | completed {s t : σ} : R s t → Follows lifted R (.completed s) (.completed t)
  | interrupted {s t : σ} {cause : Interrupt} :
    R s t → Follows lifted R (.interrupted s cause) (.interrupted t cause)
  | lifted {s : σ} {cause : Interrupt} (b : Attempt σ) :
    lifted cause → Follows lifted R (.interrupted s cause) b

namespace Follows

variable {σ τ : Type} {lifted : Interrupt → Prop} {R : σ → σ → Prop} {a b : Attempt σ}

theorem map {Q : τ → τ → Prop} {f g : σ → τ} (h : Follows lifted R a b)
    (hMap : ∀ s t, R s t → Q (f s) (g t)) : Follows lifted Q (a.map f) (b.map g) := by
  cases h with
  | completed hR => exact .completed (hMap _ _ hR)
  | interrupted hR => exact .interrupted (hMap _ _ hR)
  | lifted b hCause => exact .lifted _ hCause

theorem andThen {f g : σ → Attempt σ} (h : Follows lifted R a b)
    (hNext : ∀ s t, R s t → Follows lifted R (f s) (g t)) :
    Follows lifted R (a.andThen f) (b.andThen g) := by
  cases h with
  | completed hR => exact hNext _ _ hR
  | interrupted hR => exact .interrupted hR
  | lifted b hCause => exact .lifted _ hCause

/-- Where the first attempt completes, so does the second. -/
theorem exists_completed {s : σ} (h : Follows lifted R (.completed s) b) :
    ∃ t, b = .completed t ∧ R s t := by
  cases h with
  | completed hR => exact ⟨_, rfl, hR⟩

/-- Where the first attempt is interrupted by a cause that is not lifted, so is the second. -/
theorem exists_interrupted {s : σ} {cause : Interrupt}
    (h : Follows lifted R (.interrupted s cause) b) (hCause : ¬ lifted cause) :
    ∃ t, b = .interrupted t cause ∧ R s t := by
  cases h with
  | interrupted hR => exact ⟨_, rfl, hR⟩
  | lifted _ hLifted => exact absurd hLifted hCause

end Follows

end Attempt

-- ---------------------------------------------------------------------------
-- Signals
-- ---------------------------------------------------------------------------

namespace Datapath

/-- A memory cell is found at its own address. -/
theorem toInt_of_cell? {d : Datapath} {a : Word} {i : Nat} (h : d.cell? a = some i) :
    a.toInt = i := by
  unfold cell? at h
  split at h
  · rename_i hRange
    have hLow : 0 ≤ a.toInt := Int32.le_iff_toInt_le.mp hRange.1
    cases h
    omega
  · cases h

/-- `e` is a variant of `d`, which is within its bounds. -/
structure Variant (z : Variation) (d e : Datapath) : Prop where
  bounded : d.Bounded
  depth : e.depth = d.depth
  stack : e.stack = d.stack ++ z.cells
  address : e.address = d.address
  output : e.output = d.output
  input : e.input = d.input ++ z.input
  memory_size : e.memory.size = d.memory.size + z.memory
  /-- The cell with the address of the input port is left out. -/
  memory : ∀ i, i ≠ 0 → i < d.memory.size → e.memory[i]? = d.memory[i]?

/-- An attempt at a change of a variant, beside the same attempt at the datapath itself. -/
abbrev Keeps (z : Variation) : Attempt Datapath → Attempt Datapath → Prop :=
  Attempt.Follows z.Lifts (Variant z)

namespace Variant

variable {z : Variation} {d e : Datapath}

theorem bounded_variant (h : d.Variant z e) : e.Bounded := by
  have hBounded := h.bounded
  unfold Bounded at hBounded ⊢
  rw [h.depth, h.stack, Array.size_append]
  omega

/-- Above the cells in use there is nothing to be read. -/
theorem peek?_eq (h : d.Variant z e) (k : Nat) : e.peek? k = d.peek? k := by
  have hSlot : e.slot? k = d.slot? k := by rw [slot?, slot?, h.depth]
  rw [peek?, peek?, hSlot]
  rcases hAt : d.slot? k with _ | i
  · rfl
  · have hCell : i < d.stack.size := slot?_lt h.bounded hAt
    simp only [Option.map_some, Array.getD_eq_getD_getElem?]
    rw [h.stack, Array.getElem?_append_left hCell]

theorem top?_eq (h : d.Variant z e) : e.top? = d.top? := h.peek?_eq 0

theorem second?_eq (h : d.Variant z e) : e.second? = d.second? := h.peek?_eq 1

theorem zero?_eq (h : d.Variant z e) : e.zero? = d.zero? := by rw [zero?, zero?, h.top?_eq]

theorem poke (h : d.Variant z e) (k : Nat) (value : Word) :
    Keeps z (d.poke k value) (e.poke k value) := by
  have hSlot : e.slot? k = d.slot? k := by rw [slot?, slot?, h.depth]
  rw [Datapath.poke, Datapath.poke, hSlot]
  rcases hAt : d.slot? k with _ | i
  · exact .interrupted h
  · have hCell : i < d.stack.size := slot?_lt h.bounded hAt
    have hBounded : Bounded { d with stack := d.stack.setIfInBounds i value } := by
      unfold Bounded
      rw [Array.size_setIfInBounds]
      exact h.bounded
    have hStack : e.stack.setIfInBounds i value = d.stack.setIfInBounds i value ++ z.cells := by
      rw [h.stack, Array.setIfInBounds_append_left hCell]
    exact .completed { h with bounded := hBounded, stack := hStack }

theorem withWord (h : d.Variant z e) {next next' : Word → Attempt Datapath}
    (hNext : ∀ w, Keeps z (next w) (next' w)) (word? : Option Word) :
    Keeps z (d.withWord word? next) (e.withWord word? next') := by
  rcases word? with _ | w
  · exact .interrupted h
  · exact hNext w

/-- A cell that the datapath has is there in its variant. One that it does not have may be. -/
theorem cell?_eq (h : d.Variant z e) (a : Word) :
    e.cell? a = d.cell? a ∨ (d.cell? a = none ∧ z.memory ≠ 0) := by
  unfold cell?
  rw [h.memory_size]
  by_cases hHere : 0 ≤ a ∧ a.toInt < d.memory.size
  · have hThere : 0 ≤ a ∧ a.toInt < ((d.memory.size + z.memory : Nat) : Int) :=
      ⟨hHere.1, by omega⟩
    exact Or.inl (by rw [if_pos hHere, if_pos hThere])
  · by_cases hMore : z.memory = 0
    · rw [hMore]
      exact Or.inl rfl
    · exact Or.inr ⟨if_neg hHere, hMore⟩

theorem withCell (h : d.Variant z e) {next next' : Nat → Attempt Datapath}
    (hNext : ∀ i, d.cell? d.address = some i → Keeps z (next i) (next' i)) :
    Keeps z (d.withCell d.address next) (e.withCell e.address next') := by
  unfold Datapath.withCell
  rw [h.address]
  rcases h.cell?_eq d.address with hCell | ⟨hNone, hMore⟩
  · rw [hCell]
    rcases hAt : d.cell? d.address with _ | i
    · exact .interrupted h
    · exact hNext i hAt
  · rw [hNone]
    exact .lifted _ hMore

theorem lower (h : d.Variant z e) (n : Nat) : Keeps z (d.lower n) (e.lower n) := by
  have hBounded := h.bounded
  unfold Bounded at hBounded
  rw [Datapath.lower, Datapath.lower, h.depth]
  by_cases hShort : d.depth < n
  · rw [if_pos hShort, if_pos hShort]
    exact .interrupted h
  · rw [if_neg hShort, if_neg hShort]
    have hLess : Bounded { d with depth := d.depth - n } := Nat.le_trans (Nat.sub_le _ _) hBounded
    exact .completed { h with bounded := hLess, depth := rfl }

/-- There is room where there was room before. Where there was none, there may be some. -/
theorem up (h : d.Variant z e) : Keeps z (d.move .up) (e.move .up) := by
  have hDepth := h.depth
  have hSize : e.stack.size = d.stack.size + z.cells.size := by rw [h.stack, Array.size_append]
  unfold Datapath.move
  by_cases hRoom : d.depth < d.stack.size
  · rw [if_pos hRoom, if_pos (by omega)]
    have hOne : Bounded { d with depth := d.depth + 1 } := hRoom
    exact .completed { h with bounded := hOne, depth := congrArg (· + 1) hDepth }
  · rw [if_neg hRoom]
    by_cases hMore : z.cells = #[]
    · rw [hMore, Array.size_empty, Nat.add_zero] at hSize
      rw [if_neg (by omega), hSize]
      exact .interrupted h
    · exact .lifted _ hMore

theorem move (h : d.Variant z e) (m : StackMove) : Keeps z (d.move m) (e.move m) := by
  rcases m with _ | _ | _
  · exact h.up
  · exact h.lower 1
  · exact h.lower 2

/-- The same character comes first, if there is one. -/
theorem receive (h : d.Variant z e) : Keeps z d.receive e.receive := by
  unfold Datapath.receive
  rw [h.input]
  rcases hInput : d.input with _ | ⟨c, rest⟩
  · by_cases hMore : z.input = []
    · rw [hMore]
      exact .interrupted h
    · exact .lifted _ hMore
  · have hRest : Variant z { d with input := rest } { e with input := rest ++ z.input } :=
      { h with input := rfl }
    exact hRest.poke 0 (Word.ofChar c)

/-- Loading looks at the input port before it looks for the first cell. -/
theorem load (h : d.Variant z e) :
    Keeps z (d.drive (.latchTop .memory)) (e.drive (.latchTop .memory)) := by
  have hAddress := h.address
  simp only [Datapath.drive]
  by_cases hPort : d.address = Word.inputPort
  · rw [if_pos hPort, if_pos (hAddress.trans hPort)]
    exact h.receive
  · rw [if_neg hPort, if_neg (hAddress ▸ hPort)]
    refine h.withCell fun i hCell => ?_
    have hOther : i ≠ 0 := by
      rintro rfl
      exact hPort (Int32.toInt_inj.mp (toInt_of_cell? hCell))
    have hWord : e.memory.getD i 0 = d.memory.getD i 0 := by
      rw [Array.getD_eq_getD_getElem?, Array.getD_eq_getD_getElem?,
        h.memory i hOther (cell?_lt hCell)]
    rw [hWord]
    exact h.poke 0 _

/-- A word is stored in both memories, or sent to both outputs. -/
theorem store (h : d.Variant z e) : Keeps z (d.drive .store) (e.drive .store) := by
  have hAddress := h.address
  simp only [Datapath.drive]
  rw [h.top?_eq]
  by_cases hPort : d.address = Word.outputPort
  · rw [if_pos hPort, if_pos (hAddress.trans hPort)]
    refine h.withWord (fun w => ?_) d.top?
    exact .completed { h with output := congrArg (Array.push · w) h.output }
  · rw [if_neg hPort, if_neg (hAddress ▸ hPort)]
    refine h.withCell fun i hCell => h.withWord (fun w => ?_) d.top?
    refine .completed { h with memory_size := ?_, memory := ?_ }
    · simp only [Array.size_setIfInBounds]
      exact h.memory_size
    · intro j hOther hj
      simp only [Array.size_setIfInBounds] at hj
      have hi : i < d.memory.size := cell?_lt hCell
      have hi' : i < e.memory.size := by
        rw [h.memory_size]
        omega
      simp only [Array.getElem?_setIfInBounds]
      rw [if_pos hi, if_pos hi', h.memory j hOther hj]

/-- A signal does the same to a datapath and to a variant of it. -/
theorem drive (h : d.Variant z e) (s : Signal) : Keeps z (d.drive s) (e.drive s) := by
  cases s with
  | latchAddress source =>
    cases source
    all_goals
      simp only [Datapath.drive, h.top?_eq, h.second?_eq]
      refine h.withWord (fun w => ?_) _
      exact .completed { h with address := rfl }
  | moveStack m => exact h.move m
  | latchTop source =>
    cases source with
    | literal v => exact h.poke 0 v
    | memory => exact h.load
    | second =>
      simp only [Datapath.drive, h.second?_eq]
      exact h.withWord (fun w => h.poke 0 w) _
    | increment =>
      simp only [Datapath.drive, h.top?_eq]
      exact h.withWord (fun w => h.poke 0 (w + 1)) _
  | latchSecond source =>
    cases source with
    | literal v => exact h.poke 1 v
    | alu op =>
      simp only [Datapath.drive, h.top?_eq, h.second?_eq]
      exact h.withWord (fun left => h.withWord (fun right => h.poke 1 _) _) _
  | store => exact h.store

end Variant

end Datapath

-- ---------------------------------------------------------------------------
-- Cycles
-- ---------------------------------------------------------------------------

namespace Processor

/-- `q` is a variant of `p`. -/
structure Variant (z : Variation) (p q : Processor) : Prop where
  pc : q.pc = p.pc
  opcode : q.register.map Instruction.opcode = p.register.map Instruction.opcode
  tick : q.tick = p.tick
  code_size : q.code.size = p.code.size + z.code
  code : ∀ (i : Nat) (x : Instruction), p.code[i]? = some x →
    ∃ y, q.code[i]? = some y ∧ z.Replaces x y
  datapath : p.datapath.Variant z q.datapath

/-- An attempt at a change of a variant, beside the same attempt at the processor itself. -/
abbrev Keeps (z : Variation) : Attempt Processor → Attempt Processor → Prop :=
  Attempt.Follows z.Lifts (Variant z)

/-- Each of the two processors reports the record that it has fetched, by the number that this
record carries. -/
def FailToDecode (z : Variation) (p q : Processor) : Prop :=
  ∃ x y reason, p.code[p.pc]? = some x ∧ q.code[p.pc]? = some y ∧ z.Replaces x y ∧
    p.cycle = .interrupted p (.fault (.decode ⟨x.index, reason⟩)) ∧
    q.cycle = .interrupted q (.fault (.decode ⟨y.index, reason⟩))

namespace Variant

variable {z : Variation} {p q : Processor}

theorem step (h : p.Variant z q) (s : Step) : Keeps z (p.step s) (q.step s) := by
  cases s with
  | drive signal =>
    refine (h.datapath.drive signal).map fun d e hd => ?_
    exact { h with datapath := hd }
  | tick => exact .completed { h with tick := congrArg (· + 1) h.tick }
  | jump target => exact .completed { h with pc := rfl }
  | branch target =>
    simp only [Processor.step, h.datapath.zero?_eq]
    rcases p.datapath.zero? with _ | _ | _
    · exact .interrupted h
    · exact .completed h
    · exact .completed { h with pc := rfl }
  | halt => exact .interrupted h

/-- The steps of an operation do the same to a processor and to a variant of it. -/
theorem perform (h : p.Variant z q) (steps : List Step) :
    Keeps z (p.perform steps) (q.perform steps) := by
  induction steps generalizing p q with
  | nil => exact .completed h
  | cons s rest ih => exact (h.step s).andThen fun r t hNext => ih hNext

theorem fetch (h : p.Variant z q) {x y : Instruction} (hReplaces : z.Replaces x y) :
    (p.fetch x).Variant z (q.fetch y) :=
  { h with
    pc := congrArg (· + 1) h.pc
    opcode := congrArg some hReplaces.opcode
    tick := congrArg (· + 1) h.tick }

theorem getElem?_code_eq_none (h : p.Variant z q) (hFetch : p.code[p.pc]? = none)
    (hMore : z.code = 0) : q.code[q.pc]? = none := by
  have hSize := h.code_size
  rw [Array.getElem?_eq_none_iff] at hFetch ⊢
  rw [h.pc]
  omega

/-- Where the processor reports the record that it has fetched, so does its variant. -/
theorem failToDecode (h : p.Variant z q) {fault : DecodeFault}
    (hCause : p.cycle.cause? = some (.fault (.decode fault))) : FailToDecode z p q := by
  obtain ⟨x, hFetch, hOp⟩ := decode_of_cycle h.datapath.bounded hCause
  obtain ⟨y, hFetch', hReplaces⟩ := h.code p.pc x hFetch
  have hHere : q.code[q.pc]? = some y := by rw [h.pc, hFetch']
  obtain ⟨reason, rfl, hOp'⟩ := hReplaces.operation_of_error hOp
  exact ⟨x, y, reason, hFetch, hFetch', hReplaces, cycle_of_operation_eq_error hFetch hOp,
    cycle_of_operation_eq_error hHere hOp'⟩

/-- In all other cases a cycle does the same to a processor and to a variant of it. -/
theorem cycle (h : p.Variant z q)
    (hDecodes : ∀ fault, p.cycle.cause? ≠ some (.fault (.decode fault))) :
    Keeps z p.cycle q.cycle := by
  rcases hFetch : p.code[p.pc]? with _ | x
  · rw [cycle_of_getElem?_eq_none hFetch]
    by_cases hMore : z.code = 0
    · rw [cycle_of_getElem?_eq_none (h.getElem?_code_eq_none hFetch hMore), h.pc]
      exact .interrupted h
    · exact .lifted _ hMore
  · obtain ⟨y, hFetch', hReplaces⟩ := h.code p.pc x hFetch
    have hHere : q.code[q.pc]? = some y := by rw [h.pc, hFetch']
    rcases hOp : x.operation with fault | op
    · have hCycle := cycle_of_operation_eq_error hFetch hOp
      exact absurd (congrArg Attempt.cause? hCycle) (hDecodes fault)
    · rw [cycle_of_operation_eq_ok hFetch hOp,
        cycle_of_operation_eq_ok hHere (hReplaces.operation_of_ok hOp)]
      exact (h.fetch hReplaces).perform op.microcode

theorem exists_completed (h : p.Variant z q) {r : Processor} (hCycle : p.cycle = .completed r) :
    ∃ t, q.cycle = .completed t ∧ r.Variant z t := by
  have hKeeps := h.cycle fun fault => by simp [hCycle, Attempt.cause?]
  rw [hCycle] at hKeeps
  exact hKeeps.exists_completed

end Variant

end Processor

end StackProcessor
