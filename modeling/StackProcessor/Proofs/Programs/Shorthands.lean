import Mathlib.Data.List.TakeWhile
import StackProcessor.Proofs.Simulation.Timing

/-!
# StackProcessor — programs that read and write

A program reads a character with two instructions, the pair that `inp` stands for, and writes a word
with two, the pair that `out` stands for. What stands at the input port is a text with an end mark
behind it (`Display.inputQueue`); as the text may hold end marks of its own, a program that stops at
an end mark reads the characters before the first one (`Display.beforeMark`).

## Results
- `Display.exists_inputQueue_eq` : what a program finds at the input port.
- `ListMachine.takes_input` : reading a character, if the stack has room for one word.
- `ListMachine.takes_output` : writing a word, if the stack has room for the address of the port.
-/

namespace StackProcessor

-- ---------------------------------------------------------------------------
-- The characters at the input port
-- ---------------------------------------------------------------------------

namespace Display

/-- The characters before the first end mark, or all of them. -/
def beforeMark (text : List Char) : List Char := text.takeWhile fun c => c ≠ '\x00'

theorem ne_mark_of_mem_beforeMark {text : List Char} : ∀ c ∈ beforeMark text, c ≠ '\x00' := by
  intro c hc
  rw [beforeMark] at hc
  simpa using List.mem_takeWhile_imp hc

/-- At the input port stand the characters before the first end mark, and then an end mark. -/
theorem exists_inputQueue_eq (text : String) :
    ∃ rest, inputQueue (some text) = beforeMark text.toList ++ '\x00' :: rest := by
  have hSplit := List.takeWhile_append_dropWhile (p := fun c => c ≠ '\x00') (l := text.toList)
  have hHead := List.head?_dropWhile_not (fun c => decide (c ≠ '\x00')) text.toList
  show ∃ rest, text.toList ++ ['\x00'] = _
  rcases hRest : text.toList.dropWhile fun c => c ≠ '\x00' with _ | ⟨c, rest⟩
  · rw [hRest, List.append_nil] at hSplit
    exact ⟨[], by rw [beforeMark, hSplit]⟩
  · rw [hRest] at hSplit hHead
    obtain rfl : c = '\x00' := by simpa using hHead
    exact ⟨rest ++ ['\x00'], by rw [beforeMark, ← List.cons_append, ← List.append_assoc, hSplit]⟩

end Display

-- ---------------------------------------------------------------------------
-- Two instructions at a port
-- ---------------------------------------------------------------------------

namespace ListMachine

variable {m : ListMachine}

/-- The address of the input port is replaced by the next character there. -/
theorem takes_input {c : Char} {rest : List Char} (hPush : m.operation? = some (.push 0))
    (hLoad : m.next.operation? = some .load) (hInput : m.input = c :: rest)
    (hRoom : m.stack.length < m.capacity) :
    m.Takes 2 6 { m with pc := m.pc + 2, stack := Word.ofChar c :: m.stack, input := rest } := by
  have hPushed : m.exec? (.push 0) = some { m.next with stack := 0 :: m.stack } :=
    withStack?_of_le hRoom
  have hLoaded : ListMachine.exec? { m.next with stack := 0 :: m.stack } .load =
      some { m with pc := m.pc + 2, stack := Word.ofChar c :: m.stack, input := rest } := by
    show load? { m.next.next with stack := 0 :: m.stack } 0 m.stack = _
    rw [load?, if_pos rfl]
    simp only [next, hInput]
  exact .step hPush hPushed (.step hLoad hLoaded (.none _))

/-- The word on the stack goes to the output, and so does the address of the port. -/
theorem takes_output {v : Word} {s : List Word} (hPush : m.operation? = some (.push2 1))
    (hPop : m.next.operation? = some .pop) (hStack : m.stack = v :: s)
    (hRoom : s.length + 2 ≤ m.capacity) :
    m.Takes 2 7 { m with pc := m.pc + 2, stack := s, output := m.output ++ [v] } := by
  have hPushed : m.exec? (.push2 1) = some { m.next with stack := v :: 1 :: s } := by
    simp only [exec?, hStack]
    exact withStack?_of_le hRoom
  have hPopped : ListMachine.exec? { m.next with stack := v :: 1 :: s } .pop =
      some { m with pc := m.pc + 2, stack := s, output := m.output ++ [v] } := rfl
  exact .step hPush hPushed (.step hPop hPopped (.none _))

end ListMachine

end StackProcessor
