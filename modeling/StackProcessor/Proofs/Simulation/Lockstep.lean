import StackProcessor.Proofs.Machine.Variation
import StackProcessor.Proofs.Simulation.Course

/-!
# StackProcessor — runs in lock step

A run of a variant of a machine goes from session to session together with the run of the machine
itself (`Session.Variant`). Both have the same events, but for the snapshots: where the stack of the
variant has more cells, and the window of a snapshot has room for them (`Variation.shown`), they are
shown there (`Event.widened`). So the two runs end together, unless the machine reports an end that
the variant does not have, or both come to a record that cannot be executed and carries another
number in the variant. These are the three constructors of `Session.EndTogether`.

What one cycle does is known from `Processor.Variant`; here it is carried along `Session.Next`, and
by induction along `Session.Leads`. `Image.Variant` is where the two machines start from.

## Results
- `Session.Variant.next`, `Session.Variant.leads` : the runs go on together.
- `Session.Variant.endTogether` : how they end.
-/

namespace StackProcessor

-- ---------------------------------------------------------------------------
-- What is seen of a variant
-- ---------------------------------------------------------------------------

/-- The same snapshot, with a window that shows more cells. -/
def Snapshot.widened (more : List Word) (s : Snapshot) : Snapshot :=
  { s with window := s.window ++ more }

/-- The same event, with a window that shows more cells if there is one. -/
def Event.widened (more : List Word) : Event → Event
  | cycle snapshot => cycle (snapshot.widened more)
  | e => e

/-- The same run, with windows that show more cells. -/
def Run.widened (more : List Word) (run : Run) : Run where
  events := run.events.map (Event.widened more)
  result := run.result

/-- A run that ends with a record which cannot be executed. -/
def Run.undecodable (events : Array Event) (pc tick : Nat) (inst : Instruction)
    (reason : DecodeReason) : Run where
  events := events.push (.fault (.decode ⟨inst.index, reason⟩) pc tick)
  result := .error (.fault (.decode ⟨inst.index, reason⟩))

theorem Run.trace_undecodable (events : Array Event) (pc tick : Nat) (inst : Instruction)
    (reason : DecodeReason) :
    (undecodable events pc tick inst reason).trace = events.toList.filterMap Event.snapshot? := by
  simp [trace, undecodable, Event.snapshot?]

/-- Those of the additional stack cells that a snapshot shows, if the stack is of this capacity
without them. -/
def Variation.shown (z : Variation) (capacity : Nat) : List Word :=
  z.cells.toList.take (Snapshot.windowSize - capacity)

theorem Variation.shown_of_cells_eq_empty (z : Variation) (h : z.cells = #[]) {capacity : Nat} :
    z.shown capacity = [] := by
  rw [shown, h, List.take_nil]

theorem Snapshot.widened_nil (s : Snapshot) : s.widened [] = s := by
  simp [widened]

theorem Event.widened_nil (e : Event) : e.widened [] = e := by
  cases e with
  | cycle snapshot => rw [widened, Snapshot.widened_nil]
  | _ => rfl

theorem Run.widened_nil (run : Run) : run.widened [] = run := by
  have hEvents : run.events.map (Event.widened []) = run.events := by
    rw [funext Event.widened_nil]
    exact Array.map_id run.events
  rw [widened, hEvents]

theorem Event.snapshot?_widened (more : List Word) (e : Event) :
    (e.widened more).snapshot? = e.snapshot?.map (Snapshot.widened more) := by
  cases e <;> rfl

theorem Run.trace_widened (more : List Word) (run : Run) :
    (run.widened more).trace = run.trace.map (Snapshot.widened more) := by
  have hSnapshot : Event.snapshot? ∘ Event.widened more =
      Option.map (Snapshot.widened more) ∘ Event.snapshot? :=
    funext fun e => Event.snapshot?_widened more e
  rw [trace, trace, widened, Array.toList_map, List.filterMap_map, hSnapshot, List.map_filterMap]
  rfl

namespace Processor.Variant

variable {z : Variation} {p q : Processor}

theorem snapshot_eq (h : p.Variant z q) :
    q.snapshot = p.snapshot.widened (z.shown p.datapath.stack.size) := by
  have hPointer : q.datapath.stackPointer = p.datapath.stackPointer := by
    rw [Datapath.stackPointer, Datapath.stackPointer, h.datapath.depth]
  have hWindow : (q.datapath.stack.extract 0 Snapshot.windowSize).toList =
      (p.datapath.stack.extract 0 Snapshot.windowSize).toList ++
        z.shown p.datapath.stack.size := by
    rw [h.datapath.stack, Variation.shown, Array.extract_append, Array.toList_append]
    simp [List.extract_eq_take_drop]
  rw [snapshot, snapshot, Snapshot.widened, h.tick, h.opcode, h.pc, h.datapath.address, hPointer,
    h.datapath.top?_eq, hWindow]

theorem hasAccessed_eq (h : p.Variant z q) (opcode : Opcode) (a : Word) :
    q.hasAccessed opcode a = p.hasAccessed opcode a := by
  rw [hasAccessed, hasAccessed, h.opcode, h.datapath.address]

theorem received?_eq (h : p.Variant z q) : q.received? = p.received? := by
  rw [received?, received?, h.hasAccessed_eq, h.datapath.top?_eq]

theorem sent?_eq (h : p.Variant z q) : q.sent? = p.sent? := by
  rw [sent?, sent?, h.hasAccessed_eq, h.datapath.output]

theorem cycleEvents_eq (h : p.Variant z q) (options : Options) (warned : Bool) :
    Session.cycleEvents options warned q =
      (Session.cycleEvents options warned p).map
        (Event.widened (z.shown p.datapath.stack.size)) := by
  have hTrace : Session.traceEvent? options warned q =
      (Session.traceEvent? options warned p).map
        (Event.widened (z.shown p.datapath.stack.size)) := by
    rw [Session.traceEvent?, Session.traceEvent?, h.tick, h.snapshot_eq]
    split
    · rfl
    · split <;> rfl
  rw [Session.cycleEvents, Session.cycleEvents, h.received?_eq, h.sent?_eq, hTrace]
  cases p.received? <;> cases p.sent? <;> cases Session.traceEvent? options warned p <;> rfl

end Processor.Variant

theorem Processor.size_stack_cycle (p : Processor) :
    p.cycle.state.datapath.stack.size = p.datapath.stack.size :=
  datapath_cycle (P := fun d => d.stack.size = p.datapath.stack.size)
    (fun d s hd => (Datapath.size_stack_drive d s).trans hd) p rfl

-- ---------------------------------------------------------------------------
-- Sessions
-- ---------------------------------------------------------------------------

namespace Session

/-- `t` is the session of a variant, where `s` is that of the machine itself. -/
structure Variant (z : Variation) (more : List Word) (s t : Session) : Prop where
  processor : s.processor.Variant z t.processor
  shown : z.shown s.processor.datapath.stack.size = more
  instructions : t.instructions = s.instructions
  debugWarned : t.debugWarned = s.debugWarned
  events : t.events = s.events.map (Event.widened more)

/-- The fault of a run is the one that has interrupted it. -/
theorem cause_of_interrupt {p : Processor} {n : Nat} {events : Array Event} {cause : Interrupt}
    {fault : Fault} (h : (interrupt p n events cause).result = .error (.fault fault)) :
    cause = .fault fault := by
  cases cause with
  | halt | inputExhausted => cases h
  | fault cause =>
    cases h
    rfl

namespace Variant

variable {z : Variation} {more : List Word} {options : Options} {s s' t : Session}

/-- A completed cycle of the machine is one of its variant. -/
theorem next (h : s.Variant z more t) (hNext : Next options s s') :
    ∃ t', Next options t t' ∧ s'.Variant z more t' := by
  obtain ⟨hLimit, p, hCycle, rfl⟩ := hNext
  obtain ⟨q, hCycle', hProcessor⟩ := h.processor.exists_completed hCycle
  have hSize := s.processor.size_stack_cycle
  rw [hCycle, Attempt.state_completed] at hSize
  have hShown : z.shown p.datapath.stack.size = more := by rw [hSize, h.shown]
  refine ⟨t.advance options q, ⟨?_, q, hCycle', rfl⟩, hProcessor, hShown, ?_, ?_, ?_⟩
  · rw [h.processor.tick]
    exact hLimit
  · exact congrArg (· + 1) h.instructions
  · simp only [advance, h.debugWarned, hProcessor.tick]
  · have hAdded := hProcessor.cycleEvents_eq options s.debugWarned
    rw [hShown] at hAdded
    apply Array.toList_inj.mp
    simp only [advance, h.debugWarned, h.events, hAdded, Array.toList_appendList,
      Array.toList_map, List.map_append]

theorem leads (h : s.Variant z more t) (hLeads : Leads options s s') :
    ∃ t', Leads options t t' ∧ s'.Variant z more t' := by
  induction hLeads with
  | refl => exact ⟨t, .refl, h⟩
  | tail _ hNext ih =>
    obtain ⟨u, hLeads', hVariant⟩ := ih
    obtain ⟨t', hNext', hVariant'⟩ := hVariant.next hNext
    exact ⟨t', hLeads'.tail hNext', hVariant'⟩

-- ---------------------------------------------------------------------------
-- Ends
-- ---------------------------------------------------------------------------

theorem finish_eq (h : s.Variant z more t) {p q : Processor} (hProcessor : p.Variant z q)
    (n : Nat) (stop : StopReason) {last : Event} (hLast : last.widened more = last) :
    finish q n t.events stop last = (finish p n s.events stop last).widened more := by
  have hEvents : ((t.events.push last).push (.outputBuffer p.datapath.output.toList)) =
      ((s.events.push last).push (.outputBuffer p.datapath.output.toList)).map
        (Event.widened more) := by
    rw [Array.map_push, Array.map_push, hLast, ← h.events]
    rfl
  simp only [finish, Run.widened, hProcessor.datapath.output, hProcessor.tick, hEvents]

theorem interrupt_eq (h : s.Variant z more t) {p q : Processor} (hProcessor : p.Variant z q)
    (n : Nat) (cause : Interrupt) :
    interrupt q n t.events cause = (interrupt p n s.events cause).widened more := by
  cases cause with
  | halt =>
    simp only [interrupt, hProcessor.tick]
    exact h.finish_eq hProcessor n .halted rfl
  | inputExhausted => exact h.finish_eq hProcessor n .inputExhausted rfl
  | fault cause =>
    simp only [interrupt, Run.widened, hProcessor.pc, hProcessor.tick, Array.map_push, h.events]
    rfl

/-- Both runs have come to the limit. -/
theorem run_eq_of_limit (h : s.Variant z more t) (hLimit : options.tickLimit ≤ s.processor.tick) :
    t.run options = (s.run options).widened more := by
  have hLimit' : options.tickLimit ≤ t.processor.tick := by
    rw [h.processor.tick]
    exact hLimit
  rw [run_eq_of_ends (.limit hLimit), run_eq_of_ends (.limit hLimit'), h.instructions]
  exact h.finish_eq h.processor s.instructions .tickLimitExceeded rfl

/-- Both runs end with an interrupted cycle. -/
theorem run_eq_of_keeps (h : s.Variant z more t) (hLimit : s.processor.tick < options.tickLimit)
    {q : Processor} {cause : Interrupt} (hCycle : s.processor.cycle = .interrupted q cause)
    (hCause : ¬ z.Lifts cause) (hKeeps : Processor.Keeps z s.processor.cycle t.processor.cycle) :
    t.run options = (s.run options).widened more := by
  have hLimit' : t.processor.tick < options.tickLimit := by
    rw [h.processor.tick]
    exact hLimit
  rw [hCycle] at hKeeps
  obtain ⟨q', hCycle', hProcessor⟩ := hKeeps.exists_interrupted hCause
  rw [run_eq_of_ends (.interrupted hLimit hCycle), run_eq_of_ends (.interrupted hLimit' hCycle'),
    h.instructions]
  exact h.interrupt_eq hProcessor (s.instructions + 1) cause

/-- Both runs end with a record that cannot be executed. -/
theorem runs_of_failToDecode (h : s.Variant z more t)
    (hLimit : s.processor.tick < options.tickLimit)
    (hFail : s.processor.FailToDecode z t.processor) :
    ∃ x y reason, s.processor.code[s.processor.pc]? = some x ∧
      t.processor.code[s.processor.pc]? = some y ∧ z.Replaces x y ∧
      s.run options = .undecodable s.events s.processor.pc s.processor.tick x reason ∧
      t.run options = .undecodable (s.events.map (Event.widened more)) s.processor.pc
        s.processor.tick y reason := by
  obtain ⟨x, y, reason, hFetch, hFetch', hReplaces, hCycle, hCycle'⟩ := hFail
  have hLimit' : t.processor.tick < options.tickLimit := by
    rw [h.processor.tick]
    exact hLimit
  refine ⟨x, y, reason, hFetch, hFetch', hReplaces, ?_, ?_⟩
  · exact run_eq_of_ends (.interrupted hLimit hCycle)
  · rw [run_eq_of_ends (.interrupted hLimit' hCycle'), h.events]
    simp only [interrupt, h.processor.pc, h.processor.tick]
    rfl

end Variant

/-- Two runs that start in `s` and `t` have come to `s'` and `t'`, where a cycle is started. -/
structure ComeTo (z : Variation) (more : List Word) (options : Options) (s t s' t' : Session) :
    Prop where
  leads : Leads options s s'
  leads_variant : Leads options t t'
  variant : s'.Variant z more t'
  tick_lt : s'.processor.tick < options.tickLimit

/-- How the run of a variant ends that starts in `t`, beside the run that starts in `s`. -/
inductive EndTogether (z : Variation) (more : List Word) (options : Options) (s t : Session) :
    Prop where
  | same : (∀ fault, (s.run options).result ≠ .error (.fault (.decode fault))) →
    t.run options = (s.run options).widened more → EndTogether z more options s t
  /-- The variant goes on. -/
  | lifted {s' t' : Session} {q : Processor} {cause : Interrupt} :
    ComeTo z more options s t s' t' → s'.processor.cycle = .interrupted q cause →
    z.Lifts cause → EndTogether z more options s t
  | undecodable {s' t' : Session} : ComeTo z more options s t s' t' →
    s'.processor.FailToDecode z t'.processor → EndTogether z more options s t

/-- The run of a variant ends as the run of the machine does, unless the machine reports an end that
the variant does not have, or a record, which may carry another number in the variant. -/
theorem Variant.endTogether {z : Variation} {more : List Word} {s t : Session} (options : Options)
    (h : s.Variant z more t) : EndTogether z more options s t := by
  obtain ⟨s', hLeads, hEnds⟩ := exists_course options s
  obtain ⟨t', hLeads', hVariant⟩ := h.leads hLeads
  have hRun := run_eq_of_leads hLeads
  have hRun' := run_eq_of_leads hLeads'
  rcases hEnds.limit_or_interrupted with hLimit | ⟨q, cause, hLimit, hCycle⟩
  · have hSame := hVariant.run_eq_of_limit hLimit
    rw [hRun, hRun'] at hSame
    refine .same ?_ hSame
    rw [← hRun, run_eq_of_ends (.limit hLimit)]
    simp [finish]
  · have hComeTo : ComeTo z more options s t s' t' := ⟨hLeads, hLeads', hVariant, hLimit⟩
    have hCause : s'.processor.cycle.cause? = some cause := by
      rw [hCycle]
      rfl
    by_cases hDecode : ∃ fault, cause = .fault (.decode fault)
    · obtain ⟨fault, rfl⟩ := hDecode
      exact .undecodable hComeTo (hVariant.processor.failToDecode hCause)
    by_cases hLifted : z.Lifts cause
    · exact .lifted hComeTo hCycle hLifted
    · have hKeeps := hVariant.processor.cycle fun fault hFault => by
        rw [hCause] at hFault
        exact hDecode ⟨fault, Option.some.inj hFault⟩
      have hSame := hVariant.run_eq_of_keeps hLimit hCycle hLifted hKeeps
      rw [hRun, hRun'] at hSame
      refine .same ?_ hSame
      rw [← hRun, run_eq_of_ends (.interrupted hLimit hCycle)]
      rintro fault hFault
      exact hDecode ⟨fault, cause_of_interrupt hFault⟩

/-- With the same numbers on the records, nothing but an end can be reported that the variant does
not have. -/
theorem Variant.run_eq_or_lifted {z : Variation} {more : List Word} {s t : Session}
    (options : Options) (h : s.Variant z more t) (hNumbers : z.renumbers = false) :
    t.run options = (s.run options).widened more ∨
      ∃ s' t' q cause, ComeTo z more options s t s' t' ∧
        s'.processor.cycle = .interrupted q cause ∧ z.Lifts cause := by
  cases h.endTogether options with
  | same _ hSame => exact Or.inl hSame
  | lifted hComeTo hCycle hCause => exact Or.inr ⟨_, _, _, _, hComeTo, hCycle, hCause⟩
  | undecodable hComeTo hFail =>
    left
    obtain ⟨x, y, reason, _, _, hReplaces, hRun, hRun'⟩ :=
      hComeTo.variant.runs_of_failToDecode hComeTo.tick_lt hFail
    obtain rfl := hReplaces.eq hNumbers
    rw [← run_eq_of_leads hComeTo.leads, ← run_eq_of_leads hComeTo.leads_variant, hRun, hRun']
    simp only [Run.undecodable, Run.widened, Array.map_push]
    rfl

end Session

-- ---------------------------------------------------------------------------
-- Programs
-- ---------------------------------------------------------------------------

/-- `b` is a variant of the program `a`. -/
structure Image.Variant (z : Variation) (a b : Image) : Prop where
  data_length : b.data.length = a.data.length + z.memory
  data : ∀ i, i ≠ 0 → i < a.data.length → b.data[i]? = a.data[i]?
  code_length : b.code.length = a.code.length + z.code
  code : ∀ (i : Nat) (x : Instruction), a.code[i]? = some x →
    ∃ y, b.code[i]? = some y ∧ z.Replaces x y

theorem Image.variant_self {z : Variation} (a : Image) (hMemory : z.memory = 0)
    (hCode : z.code = 0) : a.Variant z a where
  data_length := by rw [hMemory, Nat.add_zero]
  data := fun _ _ _ => rfl
  code_length := by rw [hCode, Nat.add_zero]
  code := fun _ x hx => ⟨x, hx, .refl z x⟩

theorem Image.variant_append (a b : Image) (cells : Array Word) :
    a.Variant { cells := cells, memory := b.data.length, code := b.code.length }
      ⟨a.data ++ b.data, a.code ++ b.code⟩ where
  data_length := List.length_append
  data := fun _ _ hi => List.getElem?_append_left hi
  code_length := List.length_append
  code := fun i x hx => by
    have hi : i < a.code.length := (List.getElem?_eq_some_iff.mp hx).1
    exact ⟨x, (List.getElem?_append_left hi).trans hx, .refl _ x⟩

/-- Before the first cycle a variant of a program is on a variant of the machine. The additional
stack cells are vacant, as all others are. -/
theorem Session.variant_initial {z : Variation} {a b : Image} (h : a.Variant z b)
    (input : List Char) {options options' : Options}
    (hCells : z.cells = Array.replicate z.cells.size Datapath.vacant)
    (hSize : options'.stackSize = options.stackSize + z.cells.size) :
    (initial a input options).Variant z (z.shown options.stackSize)
      (initial b (input ++ z.input) options') := by
  have hStack : Array.replicate options'.stackSize Datapath.vacant =
      Array.replicate options.stackSize Datapath.vacant ++ z.cells := by
    rw [hCells, hSize, Array.replicate_append_replicate]
  have hDatapath : (Datapath.initial a.data options.stackSize input).Variant z
      (Datapath.initial b.data options'.stackSize (input ++ z.input)) :=
    { bounded := Datapath.bounded_initial a.data options.stackSize input
      depth := rfl
      stack := hStack
      address := rfl
      output := rfl
      input := rfl
      memory_size := by simpa [Datapath.initial] using h.data_length
      memory := by simpa [Datapath.initial] using h.data }
  refine ⟨⟨rfl, rfl, rfl, ?_, ?_, hDatapath⟩, ?_, rfl, rfl, Array.map_empty.symm⟩
  · simpa [initial, Processor.initial] using h.code_length
  · simpa [initial, Processor.initial] using h.code
  · simp [initial, Processor.initial, Datapath.initial]

theorem Session.variant_initial_of_cells_eq_empty {z : Variation} {a b : Image} (h : a.Variant z b)
    (hCells : z.cells = #[]) (input : List Char) (options : Options) :
    (initial a input options).Variant z [] (initial b (input ++ z.input) options) := by
  have hNone : z.cells = Array.replicate z.cells.size Datapath.vacant := by
    rw [hCells]
    rfl
  have hSize : options.stackSize = options.stackSize + z.cells.size := by
    rw [hCells]
    rfl
  rw [← z.shown_of_cells_eq_empty hCells]
  exact variant_initial h input hNone hSize

end StackProcessor
