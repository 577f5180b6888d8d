import StackProcessor.Proofs.Assembly.Literals
import StackProcessor.Proofs.Isa.Arithmetic
import StackProcessor.Proofs.Programs.Shorthands

/-!
# StackProcessor — a program that calculates

The program (`Calculation.source`) pushes two words that are written in its source, does one
operation on them, and writes what comes out. The word that was pushed last is the left operand.
What the result has to be congruent to is `Calculation.exact`, with the floor of a rational number
for the quotient, and `-1` where the divisor is zero.

## Results
- `Calculation.exists_object` : what the source text assembles to, whatever the words.
- `Calculation.takes_program` : the run up to the halt; the stack needs two cells.
- `literals_and_arithmetic` : from the source text to the report, and integers in any text.
-/

namespace StackProcessor

open Assembly

namespace Calculation

-- ---------------------------------------------------------------------------
-- The program
-- ---------------------------------------------------------------------------

/-- The program as it is written. -/
def source (op : AluOp) (right left : Word) : String :=
  "\n".intercalate
    ["section .code:", "psh " ++ right.render, "psh " ++ left.render, op.opcode.mnemonic, "out",
      "hlt"]

/-- The instructions of the program. -/
def instructions (op : AluOp) (right left : Word) : List Statement :=
  [.instruction "psh" (some (.integer (.ofInt right.toInt))),
    .instruction "psh" (some (.integer (.ofInt left.toInt))),
    .instruction op.opcode.mnemonic none, .instruction "out" none, .instruction "hlt" none]

/-- The program as it is loaded. -/
def image (op : AluOp) (right left : Word) : Image where
  data := [0, 0]
  code := [⟨0, .push, some right⟩, ⟨1, .push, some left⟩, ⟨2, op.opcode, none⟩,
    ⟨3, .push2, some 1⟩, ⟨4, .pop, none⟩, ⟨5, .halt, none⟩]

-- ---------------------------------------------------------------------------
-- Assembling
-- ---------------------------------------------------------------------------

theorem onOneLine_push (w : Word) : OnOneLine ("psh " ++ w.render).toList :=
  onOneLine_append (by decide) (IntegerLiteral.onOneLine_ofInt w.toInt)

/-- A line that pushes a word. -/
theorem reads_push (w : Word) : Reads ("psh " ++ w.render).toList
    (some (.instruction "psh" (some (.integer (.ofInt w.toInt))))) := by
  have hTokens := NumberPlace.hasTokens_operand .push (by decide) Nat.toDigits_ne_nil
    (IntegerLiteral.isDigit_ofInt w.toInt)
  rw [IntegerLiteral.spelling_ofInt] at hTokens
  have hLine : ("psh " ++ w.render).toList =
      Opcode.push.mnemonic.toList ++ ' ' :: (toString w.toInt).toList := by
    rw [String.toList_append]
    rfl
  rw [← hLine] at hTokens
  exact NumberPlace.reads (onOneLine_push w) hTokens

theorem holds_source (op : AluOp) (right left : Word) :
    Holds ((LineEnd.cut (source op right left).toList).map Prod.fst)
      (.codeHeader :: instructions op right left) := by
  have hOperation : OnOneLine op.opcode.mnemonic.toList := by cases op <;> decide
  have hReads : Reads op.opcode.mnemonic.toList (some (.instruction op.opcode.mnemonic none)) :=
    reads_of_read hOperation (by cases op <;> rfl)
  have hOut : Reads "out".toList (some (.instruction "out" none)) :=
    reads_of_read (by decide) rfl
  have hHalt : Reads "hlt".toList (some (.instruction "hlt" none)) :=
    reads_of_read (by decide) rfl
  have hLines : ∀ line ∈ ["section .code:", "psh " ++ right.render, "psh " ++ left.render,
      op.opcode.mnemonic, "out", "hlt"], OnOneLine line.toList := by
    simp only [List.forall_mem_cons]
    exact ⟨by decide, onOneLine_push right, onOneLine_push left, hOperation, by decide, by decide,
      nofun⟩
  rw [source, map_fst_cut_intercalate (List.cons_ne_nil _ _) hLines]
  exact .cons reads_codeHeader (.cons (reads_push right) (.cons (reads_push left)
    (.cons hReads (.cons hOut (.cons hHalt holds_nil)))))

theorem exists_object (op : AluOp) (right left : Word) (verbose : Bool) :
    ∃ o, (assemble (source op right left) verbose).result = .ok o ∧
      o.image = image op right left := by
  have hInstructs : ∀ s ∈ instructions op right left, ∃ mnemonic operand,
      s = .instruction mnemonic operand ∧ Instructs mnemonic operand := by
    have hBare : op.opcode.mnemonic ∈ shorthands ++ bareMnemonics := by cases op <;> decide
    simp only [instructions, List.forall_mem_cons]
    exact ⟨⟨_, _, rfl, .integer (by decide) (IntegerLiteral.inRange_ofInt right)⟩,
      ⟨_, _, rfl, .integer (by decide) (IntegerLiteral.inRange_ofInt left)⟩,
      ⟨_, _, rfl, .bare hBare⟩, ⟨_, _, rfl, .bare (by decide)⟩, ⟨_, _, rfl, .bare (by decide)⟩,
      nofun⟩
  have hNone : ∀ s ∈ .codeHeader :: instructions op right left, ∀ name,
      s.reference? = some name → Names (.codeHeader :: instructions op right left) name := by
    simp [instructions, Statement.reference?]
  obtain ⟨o, hResult, hConsists⟩ :=
    exists_object_of_holds (holds_source op right left) (allAdmissible_code hInstructs) hNone
      verbose
  refine ⟨o, hResult, congrArg₂ Image.mk hConsists.data ?_⟩
  have hPush (w : Word) :
      (Statement.instruction "psh" (some (.integer (.ofInt w.toInt)))).records =
        [(.push, some (.word w))] := by
    show [(Opcode.push, some (Argument.word (Word.wrap (IntegerLiteral.ofInt w.toInt).value)))] = _
    rw [IntegerLiteral.value_ofInt, Word.wrap, Int32.ofInt_toInt]
  have hRecords : (Statement.codeHeader :: instructions op right left).flatMap Statement.records =
      [(.push, some (.word right)), (.push, some (.word left)), (op.opcode, none),
        (.push2, some (.word 1)), (.pop, none), (.halt, none)] := by
    simp only [instructions, List.flatMap_cons, hPush, records_mnemonic]
    rfl
  rw [hConsists.code, hRecords]
  rfl

-- ---------------------------------------------------------------------------
-- Running
-- ---------------------------------------------------------------------------

section

variable (op : AluOp) (right left : Word) {capacity : Nat} (input : List Char)

/-- The machine that runs the program, somewhere on its way. -/
def machine (capacity : Nat) (pc : Nat) (stack output : List Word) : ListMachine where
  code := (image op right left).code
  capacity := capacity
  pc := pc
  stack := stack
  memory := [0, 0]
  input := input
  output := output

/-- The whole run, up to the halt. -/
theorem takes_program (hRoom : 2 ≤ capacity) :
    (ListMachine.initial (image op right left) capacity input).Takes 5 15
      (machine op right left input capacity 5 [] [op.eval left right]) := by
  have hRight : (machine op right left input capacity 0 [] []).exec? (.push right) =
      some (machine op right left input capacity 1 [right] []) :=
    ListMachine.withStack?_of_le (show 1 ≤ capacity by omega)
  have hLeft : (machine op right left input capacity 1 [right] []).exec? (.push left) =
      some (machine op right left input capacity 2 [left, right] []) :=
    ListMachine.withStack?_of_le hRoom
  have hOperation : (machine op right left input capacity 2 [left, right] []).operation? =
      some (.alu op) := by
    cases op <;> rfl
  have hAlu : (machine op right left input capacity 2 [left, right] []).exec? (.alu op) =
      some (machine op right left input capacity 3 [op.eval left right] []) := rfl
  have hOutput : (machine op right left input capacity 3 [op.eval left right] []).Takes 2 7
      (machine op right left input capacity 5 [] [op.eval left right]) :=
    ListMachine.takes_output rfl rfl rfl hRoom
  exact .step rfl hRight (.step rfl hLeft (.step hOperation hAlu hOutput))

end

/-- The exact result of an operation. -/
def exact (op : AluOp) (right left : Int) : Int :=
  match op with
  | .add => right + left
  | .div => if left = 0 then -1 else ⌊(right : ℚ) / left⌋
  | .mod => if left = 0 then -1 else right - left * ⌊(right : ℚ) / left⌋

theorem eval_modEq (op : AluOp) (right left : Word) :
    (op.eval left right).toInt ≡ exact op right.toInt left.toInt [ZMOD 2 ^ 32] := by
  cases op with
  | add =>
    rw [AluOp.eval_add]
    exact Word.toInt_wrap_modEq _
  | div =>
    by_cases hZero : left = 0
    · subst hZero
      rfl
    · rw [AluOp.eval_div hZero, exact, if_neg (AluOp.toInt_ne_zero hZero)]
      exact Word.toInt_wrap_modEq _
  | mod =>
    by_cases hZero : left = 0
    · subst hZero
      rfl
    · rw [AluOp.toInt_eval_mod_eq hZero, exact, if_neg (AluOp.toInt_ne_zero hZero)]
      rfl

end Calculation

/-- **Literals and arithmetic**: whatever the two words in its source, the program assembles, and
what it writes is the word that is congruent to the exact result. In any text, an integer in the
place of a number is found in the image as it is written if it is a word, and is an error if it is
none; whether the text assembles does not depend on which word it is. -/
theorem literals_and_arithmetic :
    (∀ (op : AluOp) (right left : Word) (verbose : Bool),
      ∃ o, (assemble (Calculation.source op right left) verbose).result = .ok o ∧
        ∀ (input : List Char) (options : Options), 2 ≤ options.stackSize →
          16 ≤ options.tickLimit →
          ∃ r : Word, r.toInt ≡ Calculation.exact op right.toInt left.toInt [ZMOD 2 ^ 32] ∧
            (simulate o.image input options).result = .ok ⟨[r], 6, 16, .halted⟩) ∧
    ∀ (place : NumberPlace) (n : IntegerLiteral) (source : String) (before after : List (List Char))
      (line : List Char), Cuts source.toList (before ++ line :: after) →
      HasTokens line (place.tokens n) → ∀ verbose : Bool,
      (n.value = (if n.negative then -1 else 1) *
        (Nat.ofDigits 10 (n.digits.map fun d => d.toNat - 48).reverse : Nat)) ∧
      (∀ o, (assemble source verbose).result = .ok o → n.InRange ∧
        ∃ front w, Holds before front ∧ w.toInt = n.value ∧ place.Yields o front w) ∧
      (¬n.InRange → ∃ e, (assemble source verbose).result = .error e) ∧
      (n.InRange → before = [place.header.toList] → after = [] →
        ∃ o, (assemble source verbose).result = .ok o) ∧
      ∀ (n' : IntegerLiteral) (source' : String) (line' : List Char) (o' : Object),
        Cuts source'.toList (before ++ line' :: after) → HasTokens line' (place.tokens n') →
        (assemble source' verbose).result = .ok o' →
        (n.InRange → ∃ o, (assemble source verbose).result = .ok o) ∧
          (¬n.InRange → ∃ number text, (assemble source verbose).result =
            .error (.badStatement number text (.outOfRange n))) := by
  refine ⟨fun op right left verbose => ?_,
    fun place n source before after line hCuts hTokens verbose => ⟨?_, ?_, ?_, ?_, ?_⟩⟩
  · obtain ⟨o, hResult, hImage⟩ := Calculation.exists_object op right left verbose
    refine ⟨o, hResult, fun input options hRoom hLimit => ?_⟩
    have hStack : options.stackSize ≠ 0 := by omega
    refine ⟨op.eval left right, Calculation.eval_modEq op right left, ?_⟩
    rw [hImage]
    exact simulate_of_takes hStack (Calculation.takes_program op right left input hRoom) rfl hLimit
  · exact n.value_eq
  · exact fun o hResult => NumberPlace.found hCuts hTokens hResult
  · exact fun hRange => NumberPlace.exists_error hCuts hTokens hRange verbose
  · rintro hRange rfl rfl
    exact NumberPlace.exists_object_alone hCuts hTokens hRange verbose
  · exact fun n' source' line' o' hCuts' hTokens' hResult' =>
      NumberPlace.settled hCuts hTokens hCuts' hTokens' hResult'

/-- The one quotient of words that is no word, and zeros in front of a number. -/
theorem literals_and_arithmetic_least :
    (∃ o r, (assemble (Calculation.source .div (-2147483648) (-1)) false).result = .ok o ∧
      r.toInt ≡ 2147483648 [ZMOD 2 ^ 32] ∧
      (simulate o.image [] ⟨2, 0, 16⟩).result = .ok ⟨[r], 6, 16, .halted⟩) ∧
    ∃ o a, (assemble "section .data:\nnum x -007" false).result = .ok o ∧
      o.symbols.variableTable.lookup "x" = some a ∧ o.image.data[a.toInt.toNat]? = some (-7) := by
  obtain ⟨hArithmetic, hLiterals⟩ := literals_and_arithmetic
  constructor
  · obtain ⟨o, hResult, hRuns⟩ := hArithmetic .div (-2147483648) (-1) false
    obtain ⟨r, hExact, hReport⟩ := hRuns [] ⟨2, 0, 16⟩ (by decide) (by decide)
    have hQuotient : Calculation.exact .div (-2147483648 : Word).toInt (-1 : Word).toInt =
        2147483648 := by
      rw [Calculation.exact, if_neg (by decide), ← fdiv_eq_floor]
      rfl
    exact ⟨o, r, hResult, hQuotient ▸ hExact, hReport⟩
  · have hStops (rest : List Char) : Stops (' ' :: rest) := by
      intro c hc
      cases hc
      rfl
    have hCuts : Cuts "section .data:\nnum x -007".toList
        (["section .data:".toList] ++ ["num x -007".toList]) := cuts_iff.mpr (by decide)
    have hTokens : HasTokens "num x -007".toList
        [.name "num", .name "x", .integer ⟨true, "007".toList⟩] :=
      @HasTokens.cons [] _ _ _ _ nofun
        (@Token.Begins.name 'n' "um".toList _ rfl (List.all_eq_true.mp rfl) (hStops _))
        (@HasTokens.cons [' '] _ _ _ _ (by decide)
          (@Token.Begins.name 'x' [] _ rfl nofun (hStops _))
          (@HasTokens.cons [' '] _ _ _ _ (by decide)
            (@Token.Begins.integer ⟨true, "007".toList⟩ [] nofun (List.all_eq_true.mp rfl) nofun)
            (.none trailer_nil)))
    have hRange : (IntegerLiteral.mk true "007".toList).InRange := ⟨by decide, by decide⟩
    obtain ⟨-, hFound, -, hAlone, -⟩ := hLiterals (.cell "x") ⟨true, "007".toList⟩
      "section .data:\nnum x -007" ["section .data:".toList] [] "num x -007".toList hCuts hTokens
      false
    obtain ⟨o, hResult⟩ := hAlone hRange rfl rfl
    obtain ⟨-, front, w, -, hValue, a, hLookup, -, hCell⟩ := hFound o hResult
    obtain rfl : w = -7 := Int32.toInt_inj.mp hValue
    exact ⟨o, a, hResult, hLookup, hCell⟩

end StackProcessor
