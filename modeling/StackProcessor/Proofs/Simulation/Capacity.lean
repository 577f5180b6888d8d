import StackProcessor.Proofs.Simulation.Ending
import StackProcessor.Proofs.Simulation.Extension

/-!
# StackProcessor — more room

The sizes of the stack, of the memory and of the code are looked at for one purpose only, to report
that something lies behind the end (`Fault.ReportsEnd`: a stack overflow, a bad address, a counter
out of range). A run that never has to report this does the same with any more room: stack cells
above the others, memory cells behind the others, records behind the others. The added stack cells
can be seen, in the snapshots of a stack that was smaller than their window (`Snapshot.addedCells`).
They are vacant there, because nothing ever rises so high.

The two runs go in lock step (`Session.Variant.endTogether`), with a `Variation` that adds the room;
the hypothesis `hEnd` leaves the way out in which only the variant goes on.

## Results
- `simulate_eq_widened` : the run with more room, event by event.
- `simulate_with_more_room` : its result and its trace.
-/

namespace StackProcessor

-- ---------------------------------------------------------------------------
-- Faults that more room can avoid
-- ---------------------------------------------------------------------------

/-- The fault says that something lies behind the end of the stack, of the memory or of the code. -/
def Fault.ReportsEnd : Fault → Prop
  | .runtime (.stackOverflow _) => True
  | .runtime (.badAddress _) => True
  | .runtime (.pcOutOfRange _) => True
  | _ => False

theorem Fault.stackUnderflow_or_decode {fault : Fault} (h : ¬ fault.ReportsEnd) :
    fault = .runtime .stackUnderflow ∨ ∃ undecoded, fault = .decode undecoded := by
  rcases fault with undecoded | (_ | _ | _ | _)
  · exact Or.inr ⟨undecoded, rfl⟩
  · exact absurd trivial h
  · exact Or.inl rfl
  · exact absurd trivial h
  · exact absurd trivial h

/-- Where no character is added, the ends that a variant does not have are reported by faults. -/
theorem Variation.reportsEnd_of_lifts {z : Variation} {cause : Interrupt} (h : z.Lifts cause)
    (hInput : z.input = []) : ∃ fault, cause = .fault fault ∧ fault.ReportsEnd := by
  unfold Lifts at h
  split at h
  · exact absurd hInput h
  · exact ⟨_, rfl, trivial⟩
  · exact ⟨_, rfl, trivial⟩
  · exact ⟨_, rfl, trivial⟩
  · exact h.elim

/-- The run of a variant with more room, if the machine does not come to an end of its own. -/
theorem Session.Variant.run_eq_of_not_reportsEnd {z : Variation} {more : List Word}
    {options : Options} {s t : Session} (h : s.Variant z more t) (hNumbers : z.renumbers = false)
    (hInput : z.input = []) (hEnd : ∀ fault, (s.run options).result = .error (.fault fault) →
      ¬ fault.ReportsEnd) :
    t.run options = (s.run options).widened more := by
  rcases h.run_eq_or_lifted options hNumbers with
    hSame | ⟨s', t', q, cause, hComeTo, hCycle, hLifted⟩
  · exact hSame
  · obtain ⟨fault, rfl, hReports⟩ := z.reportsEnd_of_lifts hLifted hInput
    have hResult : (s.run options).result = .error (.fault fault) := by
      rw [← run_eq_of_leads hComeTo.leads, run_eq_of_ends (.interrupted hComeTo.tick_lt hCycle)]
      rfl
    exact absurd hReports (hEnd fault hResult)

-- ---------------------------------------------------------------------------
-- Runs with more room
-- ---------------------------------------------------------------------------

/-- What the windows of the snapshots show of the cells that a larger stack has in addition. -/
def Snapshot.addedCells (capacity size : Nat) : List Word :=
  (List.replicate (size - capacity) Datapath.vacant).take (windowSize - capacity)

theorem Snapshot.addedCells_eq_nil {capacity : Nat} (h : windowSize ≤ capacity) (size : Nat) :
    addedCells capacity size = [] := by
  rw [addedCells, Nat.sub_eq_zero_of_le h, List.take_zero]

section

variable (image : Image) (cells : List Word) (records : List Instruction) (input : List Char)
variable {options : Options} {size : Nat}

/-- With more room all events are the same, but for what the windows show. -/
theorem simulate_eq_widened (hStack : 0 < options.stackSize) (hSize : options.stackSize ≤ size)
    (hEnd : ∀ fault, (simulate image input options).result = .error (.fault fault) →
      ¬ fault.ReportsEnd) :
    simulate ⟨image.data ++ cells, image.code ++ records⟩ input { options with stackSize := size } =
      (simulate image input options).widened (Snapshot.addedCells options.stackSize size) := by
  let z : Variation :=
    { cells := Array.replicate (size - options.stackSize) Datapath.vacant
      memory := cells.length
      code := records.length }
  let larger : Image := ⟨image.data ++ cells, image.code ++ records⟩
  let options' : Options := { options with stackSize := size }
  have hCells : z.cells = Array.replicate z.cells.size Datapath.vacant := by
    rw [Array.size_replicate]
  have hMore : options'.stackSize = options.stackSize + z.cells.size := by
    rw [Array.size_replicate]
    exact (Nat.add_sub_of_le hSize).symm
  have hShown : z.shown options.stackSize = Snapshot.addedCells options.stackSize size := by
    rw [Variation.shown, Array.toList_replicate, Snapshot.addedCells]
  have hInitial : (Session.initial image input options).Variant z (z.shown options.stackSize)
      (Session.initial larger (input ++ []) options') :=
    Session.variant_initial (image.variant_append ⟨cells, records⟩ _) input hCells hMore
  rw [List.append_nil, hShown] at hInitial
  have hRun := simulate_of_stackSize_ne_zero image input options (by omega)
  have hLarger := simulate_of_stackSize_ne_zero larger input options' (by omega)
  -- the capacity is a part of the machine by now, and the run does not look at it again
  have hLimits : (Session.initial larger input options').run options' =
      (Session.initial larger input options').run options :=
    Session.run_congr options options' rfl rfl _
  rw [hRun] at hEnd
  rw [hLarger, hRun, hLimits]
  exact hInitial.run_eq_of_not_reportsEnd rfl rfl hEnd

/-- **Capacity**: a run that does not report the end of the stack, of the memory or of the code has
the same result with a larger stack, with more memory cells and with more records, and the same
trace, but for the cells that a window shows of the larger stack. If it has a fault at all, then for
want of words on the stack, or because of a record that cannot be executed. -/
theorem simulate_with_more_room (hStack : 0 < options.stackSize) (hSize : options.stackSize ≤ size)
    (hEnd : ∀ fault, (simulate image input options).result = .error (.fault fault) →
      ¬ fault.ReportsEnd) :
    let run := simulate image input options
    let larger := simulate ⟨image.data ++ cells, image.code ++ records⟩ input
      { options with stackSize := size }
    larger.result = run.result ∧
      larger.trace =
        run.trace.map (Snapshot.widened (Snapshot.addedCells options.stackSize size)) ∧
      (Snapshot.windowSize ≤ options.stackSize → larger.trace = run.trace) ∧
      ∀ fault, run.result = .error fault →
        fault = .fault (.runtime .stackUnderflow) ∨
          ∃ undecoded, fault = .fault (.decode undecoded) := by
  intro run larger
  have hWidened : larger = run.widened (Snapshot.addedCells options.stackSize size) :=
    simulate_eq_widened image cells records input hStack hSize hEnd
  have hResult : larger.result = run.result := by
    rw [hWidened]
    rfl
  have hTrace : larger.trace =
      run.trace.map (Snapshot.widened (Snapshot.addedCells options.stackSize size)) := by
    rw [hWidened, Run.trace_widened]
  refine ⟨hResult, hTrace, fun hWindow => ?_, fun fault hFault => ?_⟩
  · rw [hTrace, Snapshot.addedCells_eq_nil hWindow, funext Snapshot.widened_nil, List.map_id']
  · rcases fault with _ | fault
    · obtain ⟨n, _, hEnds⟩ := simulate_endsAt image input hStack
      rw [hFault] at hEnds
      cases hEnds
    · rcases Fault.stackUnderflow_or_decode (hEnd fault hFault) with rfl | ⟨undecoded, rfl⟩
      · exact Or.inl rfl
      · exact Or.inr ⟨undecoded, rfl⟩

end

/-- An addition that just fits a stack of two cells, and the same on a stack of seven, with a memory
cell and a record that are not needed: the windows show three vacant cells more. -/
theorem simulate_with_more_room_add :
    let code : List Instruction :=
      [⟨0, .push, some 3⟩, ⟨1, .push, some 4⟩, ⟨2, .add, none⟩, ⟨3, .halt, none⟩]
    let options : Options := { stackSize := 2 }
    let run := simulate ⟨[], code⟩ [] options
    let larger :=
      simulate ⟨[] ++ [9], code ++ [⟨4, .drop, none⟩]⟩ [] { options with stackSize := 7 }
    0 < options.stackSize ∧ options.stackSize ≤ 7 ∧ run.result = .ok ⟨[], 4, 9, .halted⟩ ∧
      run.trace.map Snapshot.window = [[3, -1], [3, 4], [7, 4]] ∧
      larger.result = run.result ∧
      larger.trace = run.trace.map (Snapshot.widened [-1, -1, -1]) := by
  intro code options run larger
  have hStack : 0 < options.stackSize := by decide
  have hSize : options.stackSize ≤ 7 := by decide
  have hResult : (simulate ⟨[], code⟩ [] options).result = .ok ⟨[], 4, 9, .halted⟩ := by cbv
  have hWindows : (simulate ⟨[], code⟩ [] options).trace.map Snapshot.window =
      [[3, -1], [3, 4], [7, 4]] := by cbv
  have hEnd : ∀ fault, run.result = .error (.fault fault) → ¬ fault.ReportsEnd := by
    intro fault hFault
    cases hResult.symm.trans hFault
  obtain ⟨hSame, hTrace, _⟩ :=
    simulate_with_more_room ⟨[], code⟩ [9] [⟨4, .drop, none⟩] [] hStack hSize hEnd
  exact ⟨hStack, hSize, hResult, hWindows, hSame, hTrace⟩

end StackProcessor
