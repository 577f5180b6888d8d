import StackProcessor.Proofs.Assembly.Written
import StackProcessor.Proofs.Programs.Shorthands

/-!
# StackProcessor — a program that echoes its input

The program (`Echo.source`) writes every character that it reads and halts when it has read an end
mark. Nothing but the character is ever on the stack, so each turn of the loop begins with an empty
stack, and what has been read so far is what has been written: `Echo.machine` with the characters
still to be read is the state at the front of the loop, and `takes_loop` is by induction on these
characters. The stack needs two cells, one for the character and one for the address of the port.

## Results
- `Echo.result_source` : what the source text assembles to.
- `Echo.takes_turn`, `Echo.takes_loop` : one turn of the loop, and all of them.
- `echo_copies` : from the source text to the report.
-/

namespace StackProcessor

namespace Echo

open Assembly

-- ---------------------------------------------------------------------------
-- The program
-- ---------------------------------------------------------------------------

/-- The program as it is written. -/
def source : String :=
  "\n".intercalate
    ["", "section .code:", "loop:", "    inp", "    jmz end", "    out", "    jmp loop", "end:",
      "    hlt", ""]

/-- The program as it is loaded. -/
def image : Image where
  data := [0, 0]
  code := [⟨0, .push, some 0⟩, ⟨1, .load, none⟩, ⟨2, .jz, some 6⟩, ⟨3, .push2, some 1⟩,
    ⟨4, .pop, none⟩, ⟨5, .jump, some 0⟩, ⟨6, .halt, none⟩]

theorem result_source (verbose : Bool) :
    (assemble source verbose).result = .ok ⟨image, ⟨[], [("loop", 0), ("end", 6)]⟩, 10⟩ := by
  rw [source, result_intercalate]
  decide +kernel

-- ---------------------------------------------------------------------------
-- Running
-- ---------------------------------------------------------------------------

section

variable {capacity : Nat} {rest : List Char}

/-- The machine that runs the program, somewhere on its way. -/
def machine (capacity : Nat) (input : List Char) (pc : Nat) (stack output : List Word) :
    ListMachine where
  code := image.code
  capacity := capacity
  pc := pc
  stack := stack
  memory := image.data
  input := input
  output := output

/-- One turn of the loop writes the character that it reads. -/
theorem takes_turn {c : Char} (hRoom : 2 ≤ capacity) (hChar : c ≠ '\x00') (output : List Word) :
    (machine capacity (c :: rest) 0 [] output).Takes 6 17
      (machine capacity rest 0 [] (output ++ [Word.ofChar c])) := by
  have hWord : Word.ofChar c ≠ 0 := mt Word.ofChar_eq_zero_iff.mp hChar
  have hInput : (machine capacity (c :: rest) 0 [] output).Takes 2 6
      (machine capacity rest 2 [Word.ofChar c] output) :=
    ListMachine.takes_input rfl rfl rfl (show 0 < capacity by omega)
  have hJz : (machine capacity rest 2 [Word.ofChar c] output).exec? (.jz 6) =
      some (machine capacity rest 3 [Word.ofChar c] output) :=
    congrArg some (if_neg hWord)
  have hOutput : (machine capacity rest 3 [Word.ofChar c] output).Takes 2 7
      (machine capacity rest 5 [] (output ++ [Word.ofChar c])) :=
    ListMachine.takes_output rfl rfl rfl hRoom
  have hJump : (machine capacity rest 5 [] (output ++ [Word.ofChar c])).exec? (.jump 0) =
      some (machine capacity rest 0 [] (output ++ [Word.ofChar c])) := rfl
  exact hInput.trans (.step rfl hJz (hOutput.trans (.step rfl hJump (.none _))))

/-- An end mark ends the loop. -/
theorem takes_last (hRoom : 2 ≤ capacity) (output : List Word) :
    (machine capacity ('\x00' :: rest) 0 [] output).Takes 3 8
      (machine capacity rest 6 [0] output) := by
  have hInput : (machine capacity ('\x00' :: rest) 0 [] output).Takes 2 6
      (machine capacity rest 2 [Word.ofChar '\x00'] output) :=
    ListMachine.takes_input rfl rfl rfl (show 0 < capacity by omega)
  have hJz : (machine capacity rest 2 [Word.ofChar '\x00'] output).exec? (.jz 6) =
      some (machine capacity rest 6 [0] output) := rfl
  exact hInput.trans (.step rfl hJz (.none _))

/-- The loop writes the characters up to an end mark. -/
theorem takes_loop {cs : List Char} (hRoom : 2 ≤ capacity) (hChars : ∀ c ∈ cs, c ≠ '\x00')
    (output : List Word) :
    (machine capacity (cs ++ '\x00' :: rest) 0 [] output).Takes (6 * cs.length + 3)
      (17 * cs.length + 8) (machine capacity rest 6 [0] (output ++ cs.map Word.ofChar)) := by
  -- on the characters before the mark: what a turn has written stands before the rest
  induction cs generalizing output with
  | nil =>
    rw [List.map_nil, List.append_nil]
    exact takes_last hRoom output
  | cons c others ih =>
    obtain ⟨hChar, hOthers⟩ := List.forall_mem_cons.mp hChars
    have hRest := ih hOthers (output ++ [Word.ofChar c])
    rw [List.map_cons, List.append_cons output, List.length_cons]
    exact ((takes_turn hRoom hChar output).trans hRest).cast (by omega) (by omega)

end

end Echo

/-- **Echoing a text**: the program writes the characters of the text up to the first end mark, in
their order, in six instructions and 17 ticks for each of them. -/
theorem echo_copies (verbose : Bool) :
    ∃ o, (Assembly.assemble Echo.source verbose).result = .ok o ∧
      ∀ (text : String) (options : Options), 2 ≤ options.stackSize →
        17 * (Display.beforeMark text.toList).length + 8 < options.tickLimit →
        (simulate o.image (Display.inputQueue (some text)) options).result =
          .ok ⟨(Display.beforeMark text.toList).map Word.ofChar,
            6 * (Display.beforeMark text.toList).length + 4,
            17 * (Display.beforeMark text.toList).length + 9, .halted⟩ := by
  refine ⟨_, Echo.result_source verbose, fun text options hRoom hLimit => ?_⟩
  have hStack : options.stackSize ≠ 0 := by omega
  obtain ⟨rest, hQueue⟩ := Display.exists_inputQueue_eq text
  have hTakes := @Echo.takes_loop _ rest _ hRoom (@Display.ne_mark_of_mem_beforeMark text.toList) []
  rw [hQueue]
  exact simulate_of_takes hStack hTakes rfl hLimit

/-- What stands behind an end mark is not read, and a character may take several bytes. -/
theorem echo_copies_accent :
    ∃ o, (Assembly.assemble Echo.source false).result = .ok o ∧
      (simulate o.image (Display.inputQueue (some "né\x00!")) ⟨2, 0, 43⟩).result =
        .ok ⟨[110, 233], 16, 43, .halted⟩ := by
  obtain ⟨o, hResult, hRuns⟩ := echo_copies false
  exact ⟨o, hResult, hRuns "né\x00!" ⟨2, 0, 43⟩ (by decide) (by decide)⟩

end StackProcessor
