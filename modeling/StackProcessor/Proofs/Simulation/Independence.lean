import Mathlib.Data.List.Forall2
import StackProcessor.Proofs.Machine.Ports
import StackProcessor.Proofs.Simulation.Lockstep

/-!
# StackProcessor — what does not matter

A program can store any word in the first memory cell, at an address that it may have computed, but
it cannot read that cell: whatever it loads from there comes from the input. Nor can it read the
numbers that the records carry. Two images that differ in nothing else (`Image.SaysTheSame`) run
alike (`Image.RunsAlike`): their runs are equal, and if one of them comes to a record that cannot be
executed, the number in its report is all that tells them apart.

## Results
- `simulate_runsAlike` : two such programs run alike.
- `simulate_ignores_cell_and_numbers` : together with what holds of the ports.
-/

namespace StackProcessor

namespace Image

/-- The programs are the same, up to the first memory cell and the numbers of the records. -/
structure SaysTheSame (a b : Image) : Prop where
  data_length : b.data.length = a.data.length
  data : ∀ i, i ≠ 0 → b.data[i]? = a.data[i]?
  code : List.Forall₂ (fun x y : Instruction => y.opcode = x.opcode ∧ y.arg = x.arg) a.code b.code

/-- The runs of two programs are the same, unless they end with a record that cannot be executed.
Then each reports the record by the number that it carries in its own program, and all before that
is the same. -/
inductive RunsAlike (a b : Image) (run run' : Run) : Prop where
  | same : (∀ fault, run.result ≠ .error (.fault (.decode fault))) → run' = run →
    RunsAlike a b run run'
  | undecodable {events : Array Event} {pc tick : Nat} {x y : Instruction} {reason : DecodeReason} :
    a.code[pc]? = some x → b.code[pc]? = some y →
    run = .undecodable events pc tick x reason → run' = .undecodable events pc tick y reason →
    RunsAlike a b run run'

/-- Either way the trace is the same. -/
theorem RunsAlike.trace_eq {a b : Image} {run run' : Run} (h : a.RunsAlike b run run') :
    run'.trace = run.trace := by
  cases h with
  | same _ hSame => rw [hSame]
  | undecodable _ _ hRun hRun' =>
    rw [hRun, hRun', Run.trace_undecodable, Run.trace_undecodable]

theorem SaysTheSame.variant {a b : Image} (h : a.SaysTheSame b) :
    a.Variant { renumbers := true } b where
  data_length := h.data_length
  data := fun i hi _ => h.data i hi
  code_length := h.code.length_eq.symm
  code := by
    intro i x hx
    obtain ⟨hi, rfl⟩ := List.getElem?_eq_some_iff.mp hx
    have hi' : i < b.code.length := h.code.length_eq ▸ hi
    obtain ⟨hOpcode, hArg⟩ := h.code.get hi hi'
    exact ⟨b.code[i], List.getElem?_eq_getElem hi', hOpcode, hArg, by simp⟩

end Image

variable {a b : Image} {input : List Char} {options : Options}

/-- Both runs have come to a record that cannot be executed. -/
theorem Session.ComeTo.runsAlike {z : Variation} {s t : Session}
    (h : ComeTo z [] options (initial a input options) (initial b input options) s t)
    (hFail : s.processor.FailToDecode z t.processor) :
    a.RunsAlike b ((initial a input options).run options)
      ((initial b input options).run options) := by
  obtain ⟨x, y, reason, hFetch, hFetch', _, hRun, hRun'⟩ :=
    h.variant.runs_of_failToDecode h.tick_lt hFail
  have hCode : s.processor.code = a.code.toArray := code_of_leads h.leads
  have hCode' : t.processor.code = b.code.toArray := code_of_leads h.leads_variant
  rw [hCode, List.getElem?_toArray] at hFetch
  rw [hCode', List.getElem?_toArray] at hFetch'
  rw [run_eq_of_leads h.leads] at hRun
  rw [run_eq_of_leads h.leads_variant, funext Event.widened_nil, Array.map_id'] at hRun'
  exact .undecodable hFetch hFetch' hRun hRun'

/-- Neither the first memory cell nor the numbers of the records have an effect on a run. -/
theorem simulate_runsAlike (h : a.SaysTheSame b) (input : List Char) (options : Options) :
    a.RunsAlike b (simulate a input options) (simulate b input options) := by
  by_cases hStack : options.stackSize = 0
  · rw [simulate_of_stackSize_eq_zero a input options hStack,
      simulate_of_stackSize_eq_zero b input options hStack]
    exact .same (by simp) rfl
  · let z : Variation := { renumbers := true }
    have hInitial : (Session.initial a input options).Variant z []
        (Session.initial b (input ++ []) options) :=
      Session.variant_initial_of_cells_eq_empty h.variant rfl input options
    rw [List.append_nil] at hInitial
    rw [simulate_of_stackSize_ne_zero a input options hStack,
      simulate_of_stackSize_ne_zero b input options hStack]
    cases hInitial.endTogether options with
    | same hDecodes hSame =>
      rw [Run.widened_nil] at hSame
      exact .same hDecodes hSame
    | lifted _ _ hCause =>
      -- nothing lies behind the ends of the second program either
      exact absurd rfl (z.eq_inputExhausted_of_lifts hCause rfl rfl rfl).2
    | undecodable hComeTo hFail => exact hComeTo.runsAlike hFail

/-- **Independence**: two programs that differ in the first memory cell and in the numbers of their
records run alike, and what they trace is the same. In every run, of any program, the cell behind
the output port keeps what it held at the start, a load from the input port takes a character, and
what is stored at the address of the output port is sent, even if there is no memory at all. -/
theorem simulate_ignores_cell_and_numbers (h : a.SaysTheSame b) (input : List Char)
    (options : Options) :
    a.RunsAlike b (simulate a input options) (simulate b input options) ∧
      (simulate b input options).trace = (simulate a input options).trace ∧
      ∀ (image : Image) (capacity : Nat) (queue : List Char) (n : Nat),
        ((Processor.initial image capacity queue).cycles n).PortsHold image :=
  ⟨simulate_runsAlike h input options, (simulate_runsAlike h input options).trace_eq,
    Processor.portsHold_cycles⟩

/-- Both programs store a word behind the input port, load from there, and then come to a
declaration. What they load is the character, and only its own number tells the declaration of the
one from that of the other. -/
theorem simulate_ignores_cell_and_numbers_declaration :
    let code (number : Nat) : List Instruction :=
      [⟨number, .push, some 0⟩, ⟨number, .push, some 5⟩, ⟨number, .pop, none⟩,
        ⟨number, .push, some 0⟩, ⟨number, .load, none⟩, ⟨number, .buffer, some 1⟩]
    let a : Image := ⟨[7, 0], code 1⟩
    let b : Image := ⟨[9, 0], code 2⟩
    a.SaysTheSame b ∧
      (simulate a ['x'] {}).result = .error (.fault (.decode ⟨1, .declaration .buffer⟩)) ∧
      (simulate b ['x'] {}).result = .error (.fault (.decode ⟨2, .declaration .buffer⟩)) ∧
      (simulate a ['x'] {}).trace.map Snapshot.top =
        [some 0, some 5, none, some 0, some 120] ∧
      (simulate b ['x'] {}).trace = (simulate a ['x'] {}).trace := by
  intro code a b
  have hSame : a.SaysTheSame b :=
    { data_length := rfl
      data := fun i hi => by
        obtain ⟨j, rfl⟩ := Nat.exists_eq_succ_of_ne_zero hi
        rfl
      code := by simp [a, b, code] }
  refine ⟨hSame, by cbv, by cbv, by cbv, ?_⟩
  exact (simulate_ignores_cell_and_numbers hSame ['x'] {}).2.1

end StackProcessor
