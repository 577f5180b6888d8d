import StackProcessor.Proofs.Assembly.Written
import StackProcessor.Proofs.Isa.Arithmetic
import StackProcessor.Proofs.Programs.Shorthands

/-!
# StackProcessor — a program that adds up digits

The program (`Sum.source`) keeps a sum in its memory. Each turn of the loop reads a character and
adds what it stands for as a digit (`Sum.digit`); the address at which the new sum is stored lies
below all of this on the stack. When an end mark is read, the sum is written and the program halts.
Any character counts as a digit, by its distance from zero, and the sum is kept as the word that is
congruent to it: `Sum.machine` has `Word.wrap n` in its memory at the front of the loop, where `n`
is the sum so far, over the integers. `takes_loop` is by induction on the characters still to be
read.

## Results
- `Sum.result_source` : what the source text assembles to.
- `Sum.takes_turn`, `Sum.takes_loop` : one turn of the loop, and all of them.
- `sum_accumulates` : from the source text to the report.
-/

namespace StackProcessor

namespace Sum

open Assembly

-- ---------------------------------------------------------------------------
-- The program
-- ---------------------------------------------------------------------------

/-- The program as it is written. -/
def source : String :=
  "\n".intercalate
    ["", "section .data:", "    num acc 0", "    buf scratch 2",
      "section .code:", "loop:", "    psh acc", "    inp", "    jmz end", "    psh -48",
      "    add         ; digit value", "    psh acc", "    get", "    add",
      "    pop         ; acc = acc + digit", "    jmp loop", "end:", "    drp", "    get",
      "    out", "    hlt", ""]

/-- The program as it is loaded. -/
def image : Image where
  data := [0, 0, 0, 0, 0]
  code := [⟨0, .push, some 2⟩, ⟨1, .push, some 0⟩, ⟨2, .load, none⟩, ⟨3, .jz, some 11⟩,
    ⟨4, .push, some (-48)⟩, ⟨5, .add, none⟩, ⟨6, .push, some 2⟩, ⟨7, .load, none⟩, ⟨8, .add, none⟩,
    ⟨9, .pop, none⟩, ⟨10, .jump, some 0⟩, ⟨11, .drop, none⟩, ⟨12, .load, none⟩,
    ⟨13, .push2, some 1⟩, ⟨14, .pop, none⟩, ⟨15, .halt, none⟩]

theorem result_source (verbose : Bool) :
    (assemble source verbose).result =
      .ok ⟨image, ⟨[("acc", 2), ("scratch", 3)], [("loop", 0), ("end", 11)]⟩, 22⟩ := by
  rw [source, result_intercalate]
  decide +kernel

-- ---------------------------------------------------------------------------
-- Digits
-- ---------------------------------------------------------------------------

/-- What a character stands for as a digit. -/
def digit (c : Char) : Int := (c.toNat : Int) - 48

/-- The sum of the digits. -/
def total (cs : List Char) : Int := (cs.map digit).sum

theorem total_cons (c : Char) (cs : List Char) : total (c :: cs) = digit c + total cs := by
  rw [total, List.map_cons, List.sum_cons]
  rfl

/-- The two additions of a turn bring the sum to that of one more digit. -/
theorem add_digit (n : Int) (c : Char) :
    AluOp.add.eval (Word.wrap n) (AluOp.add.eval (-48) (Word.ofChar c)) =
      Word.wrap (n + digit c) := by
  have hMinus : (-48 : Word).toInt = -48 := rfl
  have hDigit : (c.toNat : Int) + -48 = digit c := rfl
  rw [AluOp.eval_add (-48), AluOp.eval_add, Word.toInt_ofChar, hMinus, hDigit, Int.add_comm n]
  exact Word.wrap_congr ((Word.toInt_wrap_modEq _).add (Word.toInt_wrap_modEq _))

-- ---------------------------------------------------------------------------
-- Running
-- ---------------------------------------------------------------------------

section

variable {capacity : Nat} {rest : List Char}

/-- The machine that runs the program, somewhere on its way. -/
def machine (capacity : Nat) (input : List Char) (sum : Word) (pc : Nat)
    (stack output : List Word) : ListMachine where
  code := image.code
  capacity := capacity
  pc := pc
  stack := stack
  memory := [0, 0, sum, 0, 0]
  input := input
  output := output

/-- A turn begins with the address of the sum, and a character on it. -/
theorem takes_read (hRoom : 3 ≤ capacity) (c : Char) (sum : Word) :
    (machine capacity (c :: rest) sum 0 [] []).Takes 3 9
      (machine capacity rest sum 3 [Word.ofChar c, 2] []) := by
  have hPush : (machine capacity (c :: rest) sum 0 [] []).exec? (.push 2) =
      some (machine capacity (c :: rest) sum 1 [2] []) :=
    ListMachine.withStack?_of_le (show 1 ≤ capacity by omega)
  have hInput : (machine capacity (c :: rest) sum 1 [2] []).Takes 2 6
      (machine capacity rest sum 3 [Word.ofChar c, 2] []) :=
    ListMachine.takes_input rfl rfl rfl (show 1 < capacity by omega)
  exact .step rfl hPush hInput

/-- What is on the stack is replaced by its value as a digit. -/
theorem takes_digit (hRoom : 3 ≤ capacity) (v sum : Word) :
    (machine capacity rest sum 4 [v, 2] []).Takes 2 5
      (machine capacity rest sum 6 [AluOp.add.eval (-48) v, 2] []) := by
  have hPush : (machine capacity rest sum 4 [v, 2] []).exec? (.push (-48)) =
      some (machine capacity rest sum 5 [-48, v, 2] []) :=
    ListMachine.withStack?_of_le hRoom
  have hAdd : (machine capacity rest sum 5 [-48, v, 2] []).exec? (.alu .add) =
      some (machine capacity rest sum 6 [AluOp.add.eval (-48) v, 2] []) := rfl
  exact .step rfl hPush (.step rfl hAdd (.none _))

/-- A number on the stack is added to the sum in the memory. -/
theorem takes_store (hRoom : 3 ≤ capacity) (v sum : Word) :
    (machine capacity rest sum 6 [v, 2] []).Takes 5 13
      (machine capacity rest (AluOp.add.eval sum v) 0 [] []) := by
  have hPush : (machine capacity rest sum 6 [v, 2] []).exec? (.push 2) =
      some (machine capacity rest sum 7 [2, v, 2] []) :=
    ListMachine.withStack?_of_le hRoom
  have hLoad : (machine capacity rest sum 7 [2, v, 2] []).exec? .load =
      some (machine capacity rest sum 8 [sum, v, 2] []) := rfl
  have hAdd : (machine capacity rest sum 8 [sum, v, 2] []).exec? (.alu .add) =
      some (machine capacity rest sum 9 [AluOp.add.eval sum v, 2] []) := rfl
  have hPop : (machine capacity rest sum 9 [AluOp.add.eval sum v, 2] []).exec? .pop =
      some (machine capacity rest (AluOp.add.eval sum v) 10 [] []) := rfl
  have hJump : (machine capacity rest (AluOp.add.eval sum v) 10 [] []).exec? (.jump 0) =
      some (machine capacity rest (AluOp.add.eval sum v) 0 [] []) := rfl
  exact .step rfl hPush (.step rfl hLoad (.step rfl hAdd (.step rfl hPop
    (.step rfl hJump (.none _)))))

/-- One turn of the loop adds the digit that it reads. -/
theorem takes_turn {c : Char} (hRoom : 3 ≤ capacity) (hChar : c ≠ '\x00') (n : Int) :
    (machine capacity (c :: rest) (Word.wrap n) 0 [] []).Takes 11 29
      (machine capacity rest (Word.wrap (n + digit c)) 0 [] []) := by
  have hWord : Word.ofChar c ≠ 0 := mt Word.ofChar_eq_zero_iff.mp hChar
  have hJz : (machine capacity rest (Word.wrap n) 3 [Word.ofChar c, 2] []).exec? (.jz 11) =
      some (machine capacity rest (Word.wrap n) 4 [Word.ofChar c, 2] []) :=
    congrArg some (if_neg hWord)
  have hStore := @takes_store capacity rest hRoom (AluOp.add.eval (-48) (Word.ofChar c))
    (Word.wrap n)
  rw [add_digit] at hStore
  exact (takes_read hRoom c _).trans (.step rfl hJz ((takes_digit hRoom _ _).trans hStore))

/-- An end mark ends the loop, and the sum is written. -/
theorem takes_last (hRoom : 3 ≤ capacity) (sum : Word) :
    (machine capacity ('\x00' :: rest) sum 0 [] []).Takes 8 23
      (machine capacity rest sum 15 [] [sum]) := by
  have hJz : (machine capacity rest sum 3 [Word.ofChar '\x00', 2] []).exec? (.jz 11) =
      some (machine capacity rest sum 11 [0, 2] []) := rfl
  have hDrop : (machine capacity rest sum 11 [0, 2] []).exec? .drop =
      some (machine capacity rest sum 12 [2] []) := rfl
  have hLoad : (machine capacity rest sum 12 [2] []).exec? .load =
      some (machine capacity rest sum 13 [sum] []) := rfl
  have hOutput : (machine capacity rest sum 13 [sum] []).Takes 2 7
      (machine capacity rest sum 15 [] [sum]) :=
    ListMachine.takes_output rfl rfl rfl (show 2 ≤ capacity by omega)
  exact (takes_read hRoom '\x00' sum).trans (.step rfl hJz (.step rfl hDrop
    (.step rfl hLoad hOutput)))

/-- The loop adds up the digits before an end mark, and writes the sum. -/
theorem takes_loop {cs : List Char} (hRoom : 3 ≤ capacity) (hChars : ∀ c ∈ cs, c ≠ '\x00')
    (n : Int) :
    (machine capacity (cs ++ '\x00' :: rest) (Word.wrap n) 0 [] []).Takes (11 * cs.length + 8)
      (29 * cs.length + 23)
      (machine capacity rest (Word.wrap (n + total cs)) 15 [] [Word.wrap (n + total cs)]) := by
  -- on the characters before the mark, for any sum that the loop starts with
  induction cs generalizing n with
  | nil =>
    rw [total, List.map_nil, List.sum_nil, Int.add_zero]
    exact takes_last hRoom (Word.wrap n)
  | cons c others ih =>
    obtain ⟨hChar, hOthers⟩ := List.forall_mem_cons.mp hChars
    have hRest := ih hOthers (n + digit c)
    rw [total_cons, ← Int.add_assoc, List.length_cons]
    exact ((takes_turn hRoom hChar n).trans hRest).cast (by omega) (by omega)

end

end Sum

/-- **Adding up digits**: the program writes the word that is congruent to the sum of the digits
before the first end mark, in eleven instructions and 29 ticks for each of them. -/
theorem sum_accumulates (verbose : Bool) :
    ∃ o, (Assembly.assemble Sum.source verbose).result = .ok o ∧
      ∀ (text : String) (options : Options), 3 ≤ options.stackSize →
        29 * (Display.beforeMark text.toList).length + 23 < options.tickLimit →
        ∃ w : Word,
          w.toInt ≡ ((Display.beforeMark text.toList).map fun c => (c.toNat : Int) - 48).sum
            [ZMOD 2 ^ 32] ∧
          (simulate o.image (Display.inputQueue (some text)) options).result =
            .ok ⟨[w], 11 * (Display.beforeMark text.toList).length + 9,
              29 * (Display.beforeMark text.toList).length + 24, .halted⟩ := by
  refine ⟨_, Sum.result_source verbose, fun text options hRoom hLimit => ?_⟩
  have hStack : options.stackSize ≠ 0 := by omega
  obtain ⟨rest, hQueue⟩ := Display.exists_inputQueue_eq text
  have hTakes := @Sum.takes_loop _ rest _ hRoom (@Display.ne_mark_of_mem_beforeMark text.toList) 0
  rw [Int.zero_add] at hTakes
  refine ⟨Word.wrap (Sum.total (Display.beforeMark text.toList)), Word.toInt_wrap_modEq _, ?_⟩
  rw [hQueue]
  exact simulate_of_takes hStack hTakes rfl hLimit

/-- A blank counts as a digit below zero, and what stands behind an end mark does not count. -/
theorem sum_accumulates_blank :
    ∃ o, (Assembly.assemble Sum.source false).result = .ok o ∧
      ∃ w : Word, w.toInt ≡ -7 [ZMOD 2 ^ 32] ∧
        (simulate o.image (Display.inputQueue (some "9 \x005")) ⟨3, 0, 82⟩).result =
          .ok ⟨[w], 31, 82, .halted⟩ := by
  obtain ⟨o, hResult, hRuns⟩ := sum_accumulates false
  exact ⟨o, hResult, hRuns "9 \x005" ⟨3, 0, 82⟩ (by decide) (by decide)⟩

end StackProcessor
