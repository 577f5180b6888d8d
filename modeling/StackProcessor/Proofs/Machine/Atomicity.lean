import StackProcessor.Proofs.Machine.Bounds

/-!
# StackProcessor — interrupted signals

A signal looks at everything it needs before it changes anything, so that one that is interrupted
leaves the datapath `Untouched`. There is one exception, `DropsInput`: the address is that of the
input port, a character waits there and the stack is empty. `Datapath.receive` takes the character
before it looks for the top, and the character is gone. No operation drives that signal on an empty
stack, but nothing in the datapath keeps others from doing so.

## Results
- `Datapath.drive_untouched` : without `DropsInput` an interrupted signal changes nothing.
- `Datapath.drive_of_dropsInput` : with it the signal is an underflow that has shortened the input
  by its first character and changed nothing else.
- `signals_atomic_unless_dropsInput` : both, for every datapath that signals lead to.
-/

namespace StackProcessor

namespace Datapath

/-- If the attempt was cut short, it has left the datapath untouched. -/
def Untouched (d : Datapath) (a : Attempt Datapath) : Prop :=
  ∀ e cause, a = .interrupted e cause → e = d

/-- The signal takes a character from the input port, and there is no top to write it to. -/
def DropsInput (d : Datapath) (s : Signal) : Prop :=
  s = .latchTop .memory ∧ d.address = Word.inputPort ∧ d.depth = 0 ∧ d.input ≠ []

instance (d : Datapath) (s : Signal) : Decidable (d.DropsInput s) :=
  inferInstanceAs (Decidable (_ ∧ _))

-- ---------------------------------------------------------------------------
-- Signals that look first
-- ---------------------------------------------------------------------------

section

variable {d : Datapath}

theorem untouched_completed (e : Datapath) : d.Untouched (.completed e) := nofun

theorem untouched_interrupted (cause : Interrupt) : d.Untouched (.interrupted d cause) := by
  rintro e cause ⟨rfl, rfl⟩
  rfl

theorem untouched_poke (k : Nat) (value : Word) : d.Untouched (d.poke k value) := by
  unfold poke
  split
  · exact untouched_completed _
  · exact untouched_interrupted _

theorem untouched_lower (n : Nat) : d.Untouched (d.lower n) := by
  unfold lower
  split
  · exact untouched_interrupted _
  · exact untouched_completed _

theorem untouched_move (m : StackMove) : d.Untouched (d.move m) := by
  cases m with
  | up =>
    simp only [move]
    split
    · exact untouched_completed _
    · exact untouched_interrupted _
  | down => exact untouched_lower 1
  | downTwo => exact untouched_lower 2

theorem untouched_withWord {next : Word → Attempt Datapath} (h : ∀ w, d.Untouched (next w))
    (word? : Option Word) : d.Untouched (d.withWord word? next) := by
  cases word? with
  | none => exact untouched_interrupted _
  | some w => exact h w

theorem untouched_withCell {next : Nat → Attempt Datapath} (h : ∀ i, d.Untouched (next i))
    (address : Word) : d.Untouched (d.withCell address next) := by
  unfold withCell
  split
  · exact h _
  · exact untouched_interrupted _

-- ---------------------------------------------------------------------------
-- The input port
-- ---------------------------------------------------------------------------

/-- With a top to write to, or without a character to take, nothing is lost at the port. -/
theorem untouched_receive (h : d.depth ≠ 0 ∨ d.input = []) : d.Untouched d.receive := by
  unfold receive
  split
  · exact untouched_interrupted _
  · rename_i c rest hInput
    have hTop : d.depth ≠ 0 := h.resolve_right (by simp [hInput])
    have hSlot : slot? { d with input := rest } 0 = some (d.depth - 1) := by
      rw [slot?, if_pos (Nat.pos_of_ne_zero hTop)]
      rfl
    simp only [poke, hSlot]
    exact untouched_completed _

/-- Without a top, the character is taken and goes nowhere. -/
theorem drive_of_dropsInput {s : Signal} (h : d.DropsInput s) :
    ∃ c rest, d.input = c :: rest ∧
      d.drive s = .interrupted { d with input := rest } (.ofRuntime .stackUnderflow) := by
  obtain ⟨rfl, hPort, hEmpty, hSome⟩ := h
  obtain ⟨c, rest, hInput⟩ := List.exists_cons_of_ne_nil hSome
  have hSlot : slot? { d with input := rest } 0 = none := by
    rw [slot?, if_neg (by simp [hEmpty])]
  refine ⟨c, rest, hInput, ?_⟩
  simp only [drive, if_pos hPort, receive, hInput, poke, hSlot]

/-- A signal that is interrupted leaves the datapath as it was, unless it drops a character. -/
theorem drive_untouched {s : Signal} (h : ¬d.DropsInput s) : d.Untouched (d.drive s) := by
  cases s with
  | latchAddress source =>
    cases source <;> exact untouched_withWord (fun _ => untouched_completed _) _
  | moveStack m => exact untouched_move m
  | latchTop source =>
    cases source with
    | literal v => exact untouched_poke 0 v
    | second => exact untouched_withWord (fun w => untouched_poke 0 w) _
    | memory =>
      simp only [drive]
      split
      · rename_i hPort
        refine untouched_receive ?_
        by_contra hBoth
        obtain ⟨hEmpty, hSome⟩ := not_or.mp hBoth
        exact h ⟨rfl, hPort, not_not.mp hEmpty, hSome⟩
      · exact untouched_withCell (fun _ => untouched_poke 0 _) _
    | increment => exact untouched_withWord (fun _ => untouched_poke 0 _) _
  | latchSecond source =>
    cases source with
    | literal v => exact untouched_poke 1 v
    | alu op =>
      exact untouched_withWord (fun _ => untouched_withWord (fun _ => untouched_poke 1 _) _) _
  | store =>
    simp only [drive]
    split
    · exact untouched_withWord (fun _ => untouched_completed _) _
    · exact untouched_withCell (fun _ => untouched_withWord (fun _ => untouched_completed _) _) _

end

end Datapath

-- ---------------------------------------------------------------------------
-- Whatever signals lead to
-- ---------------------------------------------------------------------------

/-- **Interrupted signals**: after any signals in any order, with interrupts on the way or without,
a signal that is interrupted has left the datapath as it was exactly if it does not drop a
character. One that drops a character is interrupted by an underflow, and that character is all that
is gone. -/
theorem signals_atomic_unless_dropsInput (memory : List Word) (capacity : Nat) (input : List Char)
    (signals : List Signal) (s : Signal) :
    let d := (Datapath.initial memory capacity input).driveAll signals
    (∀ e cause, d.drive s = .interrupted e cause → (e = d ↔ ¬d.DropsInput s)) ∧
      (d.DropsInput s → ∃ c rest, d.input = c :: rest ∧
        d.drive s = .interrupted { d with input := rest } (.ofRuntime .stackUnderflow)) := by
  intro d
  refine ⟨fun e cause hDrive => ⟨fun hSame hDrops => ?_, fun hDrops => ?_⟩,
    Datapath.drive_of_dropsInput⟩
  · obtain ⟨c, rest, hInput, hLost⟩ := Datapath.drive_of_dropsInput hDrops
    rw [hLost] at hDrive
    cases hDrive
    -- one character fewer is not the same input
    have hLength := congrArg (fun e : Datapath => e.input.length) hSame
    simp [hInput] at hLength
  · exact Datapath.drive_untouched hDrops e cause hDrive

/-- The last word has been dropped, and the address of the input port is still latched: reading the
port drops a character, and storing changes nothing. -/
theorem signals_atomic_unless_dropsInput_port :
    let signals : List Signal := [.moveStack .up, .latchTop (.literal 0), .latchAddress .top,
      .latchTop .memory, .moveStack .down]
    let d := (Datapath.initial [0, 0] 2 ['a', 'b', 'c']).driveAll signals
    d.DropsInput (.latchTop .memory) ∧ ¬d.DropsInput .store ∧
      (∃ c rest, d.input = c :: rest ∧ d.drive (.latchTop .memory) =
        .interrupted { d with input := rest } (.ofRuntime .stackUnderflow)) ∧
      (d.drive .store).cause? = some (.ofRuntime .stackUnderflow) ∧
      ∀ e cause, d.drive .store = .interrupted e cause → e = d := by
  intro signals d
  have hDrops : d.DropsInput (.latchTop .memory) := by decide
  have hStore : ¬d.DropsInput .store := by decide
  have hPort :=
    signals_atomic_unless_dropsInput [0, 0] 2 ['a', 'b', 'c'] signals (.latchTop .memory)
  have hStays := signals_atomic_unless_dropsInput [0, 0] 2 ['a', 'b', 'c'] signals .store
  refine ⟨hDrops, hStore, hPort.2 hDrops, by decide, fun e cause hDrive => ?_⟩
  exact (hStays.1 e cause hDrive).mpr hStore

/-- The address register of a fresh datapath is the input port: its first character is lost if the
signal that takes it is driven before there is a word on the stack. -/
theorem input_lost_on_empty_stack :
    let d := Datapath.initial [0, 0] 4 ['a']
    d.drive (.latchTop .memory) =
        .interrupted { d with input := [] } (.ofRuntime .stackUnderflow) ∧
      { d with input := [] } ≠ d := by
  decide

end StackProcessor
