import StackProcessor.Proofs.Machine.Clock
import StackProcessor.Proofs.Machine.Variation

/-!
# StackProcessor — the two ports

Two addresses belong to the ports, `Word.inputPort` and `Word.outputPort`, whether the memory has
cells there or not. Reading the first one takes a character from the input, and writing the second
one sends a word to the output. Of the cells behind them the first can be written and is never read,
and the second is never written, so that it keeps what it held at the start. `PortsHold image p`
collects this for one state of a run.

## Results
- `Processor.getElem?_memory_cycles` : the cell behind the output port, after any number of cycles.
- `Processor.cycle_of_load_inputPort`, `Processor.cycle_of_pop_outputPort`,
  `Processor.cycle_of_pop_inputPort` : what is read and written at the two addresses.
- `Processor.portsHold_cycles` : `PortsHold` in every state of every run.
- `Processor.Variant.exists_completed_of_inputExhausted` : a load from the empty port completes in a
  variant with more characters.
-/

namespace StackProcessor

-- ---------------------------------------------------------------------------
-- The cell behind the output port
-- ---------------------------------------------------------------------------

namespace Datapath

theorem memory_drive_of_ne_store (d : Datapath) {s : Signal} (h : s ≠ .store) :
    (d.drive s).state.memory = d.memory := by
  unfold drive withWord withCell move lower receive
  repeat' split
  all_goals simp at h ⊢

/-- What is stored goes to the cell with the latched address, or to no cell at all. -/
theorem memory_drive_store (d : Datapath) :
    (d.drive .store).state.memory = d.memory ∨
      ∃ i w, d.address ≠ Word.outputPort ∧ d.cell? d.address = some i ∧
        (d.drive .store).state.memory = d.memory.setIfInBounds i w := by
  simp only [drive]
  by_cases hPort : d.address = Word.outputPort
  · rw [if_pos hPort]
    exact Or.inl (state_withWord (P := fun e => e.memory = d.memory) rfl (fun _ => rfl) _)
  · rw [if_neg hPort, withCell]
    rcases hCell : d.cell? d.address with _ | i
    · exact Or.inl rfl
    · rcases hTop : d.top? with _ | w
      · exact Or.inl rfl
      · exact Or.inr ⟨i, w, hPort, rfl, rfl⟩

/-- No signal writes to the cell behind the output port. -/
theorem getElem?_memory_drive (d : Datapath) (s : Signal) :
    (d.drive s).state.memory[1]? = d.memory[1]? := by
  by_cases hStore : s = .store
  · subst hStore
    rcases d.memory_drive_store with hSame | ⟨i, w, hPort, hCell, hMemory⟩
    · rw [hSame]
    · have hOther : i ≠ 1 := by
        rintro rfl
        exact hPort (Int32.toInt_inj.mp (toInt_of_cell? hCell))
      rw [hMemory, Array.getElem?_setIfInBounds_ne hOther]
  · rw [d.memory_drive_of_ne_store hStore]

end Datapath

namespace Processor

/-- Nor does any number of cycles. -/
theorem getElem?_memory_cycles (p : Processor) (n : Nat) :
    (p.cycles n).datapath.memory[1]? = p.datapath.memory[1]? :=
  datapath_cycles (P := fun d => d.memory[1]? = p.datapath.memory[1]?)
    (fun d s hd => (d.getElem?_memory_drive s).trans hd) p n rfl

-- ---------------------------------------------------------------------------
-- Traffic
-- ---------------------------------------------------------------------------

variable {p q : Processor}

theorem operation?_view_iff (p : Processor) (op : Operation) :
    p.view.operation? = some op ↔ p.Fetches op := by
  unfold ListMachine.operation? Fetches
  rw [code_view_getElem?]
  rcases p.code[p.pc]? with _ | inst
  · simp
  · rcases hOp : inst.operation with fault | other
    · simp [hOp]
    · simp [hOp]

theorem exists_stack_of_top? (h : p.datapath.Bounded) {a : Word} (hTop : p.datapath.top? = some a) :
    ∃ below, p.view.stack = a :: below := by
  rw [Datapath.top?_eq h] at hTop
  rcases hLive : p.datapath.live with _ | ⟨x, below⟩
  · rw [hLive] at hTop
    cases hTop
  · rw [hLive] at hTop
    cases hTop
    exact ⟨below, hLive⟩

theorem exists_stack_of_second? (h : p.datapath.Bounded) {v a : Word}
    (hTop : p.datapath.top? = some v) (hSecond : p.datapath.second? = some a) :
    ∃ below, p.view.stack = v :: a :: below := by
  obtain ⟨rest, hStack⟩ := exists_stack_of_top? h hTop
  have hLive : p.datapath.live = v :: rest := hStack
  rw [Datapath.second?_eq h, hLive] at hSecond
  rcases rest with _ | ⟨x, below⟩
  · cases hSecond
  · cases hSecond
    exact ⟨below, hStack⟩

/-- A load from the input port takes the next character, and is interrupted if there is none. -/
theorem cycle_of_load_inputPort (h : p.datapath.Bounded) (hFetches : p.Fetches .load)
    (hTop : p.datapath.top? = some Word.inputPort) :
    (p.datapath.input = [] ∧ ∃ r, p.cycle = .interrupted r .inputExhausted) ∨
      ∃ c rest r, p.datapath.input = c :: rest ∧ p.cycle = .completed r ∧
        r.datapath.input = rest ∧ r.datapath.top? = some (Word.ofChar c) := by
  have hOp := (operation?_view_iff p .load).mpr hFetches
  obtain ⟨below, hStack⟩ := exists_stack_of_top? h hTop
  rcases hInput : p.datapath.input with _ | ⟨c, rest⟩
  · exact Or.inl ⟨rfl, (cycle_interrupted_iff h _).mpr (.inputExhausted hOp hStack hInput)⟩
  · have hNext : p.view.next.input = c :: rest := hInput
    have hStep : p.view.step? =
        some { p.view.next with stack := Word.ofChar c :: below, input := rest } := by
      rw [ListMachine.step?_of_operation? hOp]
      simp only [ListMachine.exec?, hStack, ListMachine.load?, hNext]
      exact if_pos rfl
    obtain ⟨r, hCycle, hView⟩ := (cycle_completed_iff h _).mpr hStep
    have hBounded := bounded_cycle h
    rw [hCycle, Attempt.state_completed] at hBounded
    refine Or.inr ⟨c, rest, r, rfl, hCycle, congrArg ListMachine.input hView, ?_⟩
    have hLive : r.datapath.live = Word.ofChar c :: below := congrArg ListMachine.stack hView
    rw [Datapath.top?_eq hBounded, hLive]
    rfl

/-- A word is stored at its address, or sent. -/
theorem cycle_of_pop (h : p.datapath.Bounded) (hFetches : p.Fetches .pop) {v a : Word}
    {below : List Word} (hStack : p.view.stack = v :: a :: below) {m : ListMachine}
    (hStore : p.view.next.store? v a below = some m) :
    ∃ r, p.cycle = .completed r ∧ r.view = m := by
  have hOp := (operation?_view_iff p .pop).mpr hFetches
  apply (cycle_completed_iff h m).mpr
  rw [ListMachine.step?_of_operation? hOp]
  simp only [ListMachine.exec?, hStack]
  exact hStore

/-- Storing at the address of the output port sends the word. No memory cell is looked for. -/
theorem cycle_of_pop_outputPort (h : p.datapath.Bounded) (hFetches : p.Fetches .pop) {v : Word}
    (hTop : p.datapath.top? = some v) (hSecond : p.datapath.second? = some Word.outputPort) :
    ∃ r, p.cycle = .completed r ∧ r.datapath.output = p.datapath.output.push v ∧
      r.datapath.memory = p.datapath.memory := by
  obtain ⟨below, hStack⟩ := exists_stack_of_second? h hTop hSecond
  have hStore : p.view.next.store? v Word.outputPort below =
      some { p.view.next with stack := below, output := p.view.next.output ++ [v] } := if_pos rfl
  obtain ⟨r, hCycle, hView⟩ := cycle_of_pop h hFetches hStack hStore
  have hOutput : r.datapath.output.toList = p.datapath.output.toList ++ [v] :=
    congrArg ListMachine.output hView
  have hMemory : r.datapath.memory.toList = p.datapath.memory.toList :=
    congrArg ListMachine.memory hView
  refine ⟨r, hCycle, Array.toList_inj.mp ?_, Array.toList_inj.mp hMemory⟩
  rw [hOutput, Array.toList_push]

/-- Storing at the address of the input port changes the cell that stands behind it. -/
theorem cycle_of_pop_inputPort (h : p.datapath.Bounded) (hFetches : p.Fetches .pop) {v : Word}
    (hTop : p.datapath.top? = some v) (hSecond : p.datapath.second? = some Word.inputPort)
    (hCell : 0 < p.datapath.memory.size) :
    ∃ r, p.cycle = .completed r ∧ r.datapath.output = p.datapath.output ∧
      r.datapath.memory = p.datapath.memory.setIfInBounds 0 v := by
  obtain ⟨below, hStack⟩ := exists_stack_of_second? h hTop hSecond
  have hHas : p.view.next.HasCell Word.inputPort := by
    refine ⟨Int.le_refl 0, ?_⟩
    show (0 : Int) < (p.datapath.memory.toList.length : Nat)
    rw [Array.length_toList]
    omega
  have hStore : p.view.next.store? v Word.inputPort below =
      some { p.view.next with stack := below, memory := p.view.next.memory.set 0 v } := by
    rw [ListMachine.store?, if_neg (by decide), if_pos hHas]
    rfl
  obtain ⟨r, hCycle, hView⟩ := cycle_of_pop h hFetches hStack hStore
  have hOutput : r.datapath.output.toList = p.datapath.output.toList :=
    congrArg ListMachine.output hView
  have hMemory : r.datapath.memory.toList = p.datapath.memory.toList.set 0 v :=
    congrArg ListMachine.memory hView
  refine ⟨r, hCycle, Array.toList_inj.mp hOutput, Array.toList_inj.mp ?_⟩
  rw [hMemory, Array.toList_setIfInBounds]

/-- That no character was left is reported of a load from the input port. -/
theorem fetches_of_inputExhausted (h : p.datapath.Bounded)
    (hCause : p.cycle.cause? = some .inputExhausted) :
    p.Fetches .load ∧ p.datapath.top? = some Word.inputPort := by
  cases refuses_of_cause? h hCause with
  | inputExhausted hOp hStack _ =>
    have hLive : p.datapath.live = Word.inputPort :: _ := hStack
    refine ⟨(operation?_view_iff p .load).mp hOp, ?_⟩
    rw [Datapath.top?_eq h, hLive]
    rfl

/-- What holds of the ports in every state of a run of this program. -/
structure PortsHold (image : Image) (p : Processor) : Prop where
  /-- The cell behind the output port, if there is one, is as it was at the start. -/
  cell : p.datapath.memory[1]? = image.data[1]?
  receives : p.Fetches .load → p.datapath.top? = some Word.inputPort →
    (p.datapath.input = [] ∧ ∃ r, p.cycle = .interrupted r .inputExhausted) ∨
      ∃ c rest r, p.datapath.input = c :: rest ∧ p.cycle = .completed r ∧
        r.datapath.input = rest ∧ r.datapath.top? = some (Word.ofChar c)
  /-- There need not be any memory for this. -/
  sends : p.Fetches .pop → ∀ v, p.datapath.top? = some v →
    p.datapath.second? = some Word.outputPort →
    ∃ r, p.cycle = .completed r ∧ r.datapath.output = p.datapath.output.push v ∧
      r.datapath.memory = p.datapath.memory
  stores : p.Fetches .pop → ∀ v, p.datapath.top? = some v →
    p.datapath.second? = some Word.inputPort → 0 < p.datapath.memory.size →
    ∃ r, p.cycle = .completed r ∧ r.datapath.output = p.datapath.output ∧
      r.datapath.memory = p.datapath.memory.setIfInBounds 0 v

theorem portsHold_cycles (image : Image) (capacity : Nat) (input : List Char) (n : Nat) :
    ((initial image capacity input).cycles n).PortsHold image := by
  have hInitial : (initial image capacity input).datapath.Bounded :=
    Datapath.bounded_initial image.data capacity input
  have hBounded := bounded_cycles hInitial n
  refine ⟨?_, cycle_of_load_inputPort hBounded,
    fun hFetches _ => cycle_of_pop_outputPort hBounded hFetches,
    fun hFetches _ => cycle_of_pop_inputPort hBounded hFetches⟩
  rw [getElem?_memory_cycles]
  exact List.getElem?_toArray

-- ---------------------------------------------------------------------------
-- Variants with more input
-- ---------------------------------------------------------------------------

namespace Variant

variable {z : Variation}

theorem fetches (h : p.Variant z q) {op : Operation} (hFetches : p.Fetches op) :
    q.Fetches op := by
  obtain ⟨x, hFetch, hOp⟩ := hFetches
  obtain ⟨y, hFetch', hReplaces⟩ := h.code p.pc x hFetch
  refine ⟨y, ?_, hReplaces.operation_of_ok hOp⟩
  rw [h.pc, hFetch']

/-- A character that waits behind the others is taken when no other is left. -/
theorem exists_completed_of_inputExhausted (h : p.Variant z q) (hMore : z.input ≠ [])
    (hCause : p.cycle.cause? = some .inputExhausted) : ∃ r, q.cycle = .completed r := by
  obtain ⟨hFetches, hTop⟩ := fetches_of_inputExhausted h.datapath.bounded hCause
  have hTop' : q.datapath.top? = some Word.inputPort := by rw [h.datapath.top?_eq, hTop]
  rcases cycle_of_load_inputPort h.datapath.bounded_variant (h.fetches hFetches) hTop' with
    ⟨hEmpty, _⟩ | ⟨_, _, r, _, hCycle, _⟩
  · rw [h.datapath.input] at hEmpty
    exact absurd (List.append_eq_nil_iff.mp hEmpty).2 hMore
  · exact ⟨r, hCycle⟩

end Variant

end Processor

end StackProcessor
