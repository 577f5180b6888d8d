import StackProcessor.Proofs.Assembly.Written
import StackProcessor.Proofs.Programs.Shorthands

/-!
# StackProcessor — a program that prints a text

The program (`Greeting.source`) keeps a text in its memory and prints it: it loads one character
after the other, from the first one on, and halts when what it has loaded is zero. The text may hold
anything that a literal can hold, so no quote and no line end. A zero among its characters ends what
is printed (`Greeting.printed`), and otherwise the zero that the assembler puts behind a text does.

At the front of the loop, the address of the next character is the only word on the stack
(`Greeting.machine`, `Greeting.address`). `takes_loop` is by induction on the characters still to be
printed. The hypothesis `hShort` keeps the address below the greatest word.

## Results
- `Greeting.holds_source` : the program of the source text, whatever the text in it.
- `Greeting.exists_object` : what the source text assembles to.
- `Greeting.takes_turn`, `Greeting.takes_loop` : one turn of the loop, and all of them.
- `greeting_prints` : from the source text to the report.
-/

namespace StackProcessor

namespace Greeting

open Assembly

-- ---------------------------------------------------------------------------
-- The program
-- ---------------------------------------------------------------------------

/-- What is written behind the text. -/
def code : String :=
  "section .code:\n    psh greeting\nprint:\n    dup\n    get\n    jmz end\n    out\n    inc\n" ++
    "    jmp print\nend:\n    hlt\n"

/-- The program as it is written. -/
def source (text : String) : String :=
  "\nsection .data:\n    str greeting \"" ++ (text ++ ("\"\n" ++ code))

/-- The line of the text. -/
def declaration (text : List Char) : List Char := "    str greeting \"".toList ++ (text ++ ['"'])

/-- The statements behind the one of the text. -/
def instructions : List Statement :=
  [.codeHeader, .instruction "psh" (some (.symbol "greeting")), .label "print",
    .instruction "dup" none, .instruction "get" none, .instruction "jmz" (some (.symbol "end")),
    .instruction "out" none, .instruction "inc" none,
    .instruction "jmp" (some (.symbol "print")), .label "end", .instruction "hlt" none]

/-- The statements of the program. -/
def statements (text : List Char) : List Statement :=
  .dataHeader :: .declaration "str" "greeting" (.text text) :: instructions

/-- The program as it is loaded. -/
def image (text : List Char) : Image where
  data := [0, 0] ++ (text.map Word.ofChar ++ [0])
  code := [⟨0, .push, some 2⟩, ⟨1, .dup, none⟩, ⟨2, .load, none⟩, ⟨3, .jz, some 8⟩,
    ⟨4, .push2, some 1⟩, ⟨5, .pop, none⟩, ⟨6, .inc, none⟩, ⟨7, .jump, some 1⟩, ⟨8, .halt, none⟩]

-- ---------------------------------------------------------------------------
-- Assembling
-- ---------------------------------------------------------------------------

set_option maxRecDepth 4000 in
/-- The lines without the text are read by evaluation. -/
theorem holds_code : Holds ((LineEnd.cut code.toList).map Prod.fst) instructions :=
  readSource_iff_holds.mp ⟨_, rfl, rfl⟩

section

variable {text : List Char} (hQuote : '"' ∉ text) (hLine : OnOneLine text)

include hLine

theorem onOneLine_declaration : OnOneLine (declaration text) := by
  have hBefore : OnOneLine "    str greeting \"".toList := by decide
  have hBehind : OnOneLine ['"'] := by decide
  exact hBefore.append (hLine.append hBehind)

include hQuote

theorem reads_declaration :
    Reads (declaration text) (some (.declaration "str" "greeting" (.text text))) := by
  have hStops (rest : List Char) : Stops (" ".toList ++ rest) := by
    intro c hc
    cases hc
    rfl
  have hTokens : HasTokens (declaration text)
      [.name "str", .name "greeting", (Literal.text text).token] :=
    @HasTokens.cons "    ".toList _ _ _ _ (by decide)
      (@Token.Begins.name 's' "tr".toList _ rfl (List.all_eq_true.mp rfl) (hStops _))
      (@HasTokens.cons [' '] _ _ _ _ (by decide)
        (@Token.Begins.name 'g' "reeting".toList _ rfl (List.all_eq_true.mp rfl) (hStops _))
        (@HasTokens.cons [' '] _ _ _ _ (by decide) (.text hQuote hLine) (.none trailer_nil)))
  exact reads_of_tokens (onOneLine_declaration hLine) hTokens (.declaration _ _ _) (by decide)

end

/-- The lines of the source text. -/
def pieces (text : List Char) : List (List Char × LineEnd) :=
  ([], .lineFeed) :: ("section .data:".toList, .lineFeed) :: (declaration text, .lineFeed) ::
    LineEnd.cut code.toList

theorem formed_pieces {text : List Char} (hLine : OnOneLine text) : Formed (pieces text) := by
  have hEnd : LineEnd.lineFeed ≠ .text := nofun
  have hFrom : Formed ((declaration text, .lineFeed) :: LineEnd.cut code.toList) :=
    .line (onOneLine_declaration hLine) hEnd (formed_cut _)
  exact .line onOneLine_nil hEnd (.line (by decide) hEnd hFrom)

/-- Four parts of a text, put together line by line. -/
theorem append_eq_join (data front text code : List Char) :
    ('\n' :: (data ++ '\n' :: front)) ++ (text ++ (['"', '\n'] ++ code)) =
      LineEnd.join (([], .lineFeed) :: (data, .lineFeed) ::
        (front ++ (text ++ ['"']), .lineFeed) :: LineEnd.cut code) := by
  have hLine (line : List Char) (rest : List (List Char × LineEnd)) :
      LineEnd.join ((line, .lineFeed) :: rest) = line ++ '\n' :: LineEnd.join rest := by
    rw [LineEnd.join, List.flatMap_cons, List.append_assoc]
    rfl
  simp only [hLine, LineEnd.join_cut, List.append_assoc, List.cons_append, List.nil_append]

theorem toList_source (text : String) :
    (source text).toList = LineEnd.join (pieces text.toList) := by
  have hAppend (front behind : String) : (front ++ (text ++ (behind ++ code))).toList =
      front.toList ++ (text.toList ++ (behind.toList ++ code.toList)) := by
    rw [String.toList_append, String.toList_append, String.toList_append]
  exact (hAppend _ _).trans (append_eq_join "section .data:".toList "    str greeting \"".toList
    text.toList code.toList)

/-- The lines of the source text hold the program. -/
theorem holds_source {text : String} (hQuote : '"' ∉ text.toList) (hLine : OnOneLine text.toList) :
    Holds ((LineEnd.cut (source text).toList).map Prod.fst) (statements text.toList) := by
  rw [toList_source, holds_cut_join (formed_pieces hLine)]
  refine holds_cons_iff.mpr ⟨_, _, .nothing trailer_nil, ?_, rfl⟩
  exact .cons reads_dataHeader (.cons (reads_declaration hQuote hLine) holds_code)

theorem result_statements (text : List Char) :
    ∃ o, (assembleStatements 0 ((statements text).map (Located.mk 0 ""))).result = .ok o ∧
      o.image = image text :=
  ⟨_, rfl, congrArg₂ Image.mk Array.toList_appendList rfl⟩

/-- The source text assembles, whatever the text in it. -/
theorem exists_object {text : String} (hQuote : '"' ∉ text.toList)
    (hLine : OnOneLine text.toList) (verbose : Bool) :
    ∃ o, (assemble (source text) verbose).result = .ok o ∧ o.image = image text.toList := by
  obtain ⟨o, hResult, hImage⟩ := result_statements text.toList
  have hStatements : ((statements text.toList).map (Located.mk 0 "")).map Located.statement =
      statements text.toList := by
    rw [List.map_map]
    exact List.map_id _
  have hHolds := holds_source hQuote hLine
  rw [← hStatements] at hHolds
  obtain ⟨o', hAssembled, hSame, _⟩ := exists_assemble_of_holds hHolds hResult verbose
  exact ⟨o', hAssembled, hSame.trans hImage⟩

-- ---------------------------------------------------------------------------
-- Running
-- ---------------------------------------------------------------------------

section

variable {text : List Char} {capacity : Nat} {input : List Char}

/-- The machine that runs the program, somewhere on its way. -/
def machine (text : List Char) (capacity : Nat) (input : List Char) (pc : Nat)
    (stack output : List Word) : ListMachine where
  code := (image text).code
  capacity := capacity
  pc := pc
  stack := stack
  memory := (image text).data
  input := input
  output := output

/-- The address of a character of the text, or of the zero behind it. -/
def address (i : Nat) : Word := Word.wrap (2 + i)

theorem toInt_address {i : Nat} (h : i < 2 ^ 31 - 2) : (address i).toInt = 2 + i :=
  Word.toInt_wrap (by unfold Word.least; omega) (by unfold Word.greatest; omega)

theorem address_ne_zero {i : Nat} (h : i < 2 ^ 31 - 2) : address i ≠ 0 := by
  intro hZero
  have hAddress := toInt_address h
  rw [hZero, Int32.toInt_zero] at hAddress
  omega

/-- The addresses follow one another. -/
theorem next_address {i : Nat} (h : i < 2 ^ 31 - 2) :
    Word.wrap ((address i).toInt + 1) = address (i + 1) := by
  rw [toInt_address h, Int.add_assoc]
  rfl

/-- The copy of an address is replaced by what the cell there holds. -/
theorem takes_copy {i : Nat} {v : Word} (hRoom : 3 ≤ capacity) (hShort : i < 2 ^ 31 - 2)
    (hCell : (image text).data[2 + i]? = some v) (output : List Word) :
    (machine text capacity input 1 [address i] output).Takes 2 6
      (machine text capacity input 3 [v, address i] output) := by
  have hAddress := toInt_address hShort
  have hIndex : (address i).toInt.toNat = 2 + i := by omega
  have hDup : (machine text capacity input 1 [address i] output).exec? .dup =
      some (machine text capacity input 2 [address i, address i] output) :=
    ListMachine.withStack?_of_le (Nat.le_of_succ_le hRoom)
  have hLoad : (machine text capacity input 2 [address i, address i] output).exec? .load =
      some (machine text capacity input 3 [v, address i] output) :=
    ListMachine.load?_of_getElem? (address_ne_zero hShort) (by omega) (by rwa [hIndex]) [address i]
  exact (ListMachine.Takes.step rfl hDup (.step rfl hLoad (.none _))).cast rfl rfl

/-- A word that is not zero is printed, and the address goes on to the next cell. -/
theorem takes_print {i : Nat} {v : Word} (hRoom : 3 ≤ capacity) (hShort : i < 2 ^ 31 - 2)
    (hWord : v ≠ 0) (output : List Word) :
    (machine text capacity input 3 [v, address i] output).Takes 5 13
      (machine text capacity input 1 [address (i + 1)] (output ++ [v])) := by
  have hJz : (machine text capacity input 3 [v, address i] output).exec? (.jz 8) =
      some (machine text capacity input 4 [v, address i] output) :=
    congrArg some (if_neg hWord)
  have hOutput : (machine text capacity input 4 [v, address i] output).Takes 2 7
      (machine text capacity input 6 [address i] (output ++ [v])) :=
    ListMachine.takes_output rfl rfl rfl hRoom
  have hInc : (machine text capacity input 6 [address i] (output ++ [v])).exec? .inc =
      some (machine text capacity input 7 [address (i + 1)] (output ++ [v])) := by
    rw [← next_address hShort]
    rfl
  have hJump : (machine text capacity input 7 [address (i + 1)] (output ++ [v])).exec? (.jump 1) =
      some (machine text capacity input 1 [address (i + 1)] (output ++ [v])) := rfl
  exact (ListMachine.Takes.step rfl hJz (hOutput.trans (.step rfl hInc
    (.step rfl hJump (.none _))))).cast rfl rfl

/-- A zero ends the loop. -/
theorem takes_end {i : Nat} (output : List Word) :
    (machine text capacity input 3 [0, address i] output).Takes 1 2
      (machine text capacity input 8 [0, address i] output) := by
  have hJz : (machine text capacity input 3 [0, address i] output).exec? (.jz 8) =
      some (machine text capacity input 8 [0, address i] output) := rfl
  exact (ListMachine.Takes.step rfl hJz (.none _)).cast rfl rfl

/-- What is left of the text stands behind what has been printed, and a zero behind that. -/
theorem getElem?_data (before rest : List Char) :
    (image (before ++ rest)).data[2 + before.length]? =
      (rest.map Word.ofChar ++ [0])[0]? := by
  have hData : (image (before ++ rest)).data =
      ([0, 0] ++ before.map Word.ofChar) ++ (rest.map Word.ofChar ++ [0]) := by
    rw [image, List.map_append, List.append_assoc, List.append_assoc]
  have hLength : ([0, 0] ++ before.map Word.ofChar).length = 2 + before.length := by
    rw [List.length_append, List.length_map]
    rfl
  rw [hData, List.getElem?_append_right (Nat.le_of_eq hLength), hLength, Nat.sub_self]

/-- The characters up to the first zero. -/
def printed (text : List Char) : List Char := text.takeWhile fun c => c ≠ '\x00'

/-- One turn of the loop prints a character. -/
theorem takes_turn {before rest : List Char} {c : Char} (hRoom : 3 ≤ capacity)
    (hShort : before.length < 2 ^ 31 - 2) (hChar : c ≠ '\x00') (output : List Word) :
    (machine (before ++ c :: rest) capacity input 1 [address before.length] output).Takes 7 19
      (machine (before ++ c :: rest) capacity input 1 [address (before.length + 1)]
        (output ++ [Word.ofChar c])) :=
  (takes_copy hRoom hShort (getElem?_data before (c :: rest)) output).trans
    (takes_print hRoom hShort (mt Word.ofChar_eq_zero_iff.mp hChar) output)

/-- A zero ends the loop, as a character of the text or behind it. -/
theorem takes_last {before rest : List Char} (hRoom : 3 ≤ capacity)
    (hShort : before.length < 2 ^ 31 - 2) (hZero : (rest.map Word.ofChar ++ [0])[0]? = some 0)
    (output : List Word) :
    (machine (before ++ rest) capacity input 1 [address before.length] output).Takes 3 8
      (machine (before ++ rest) capacity input 8 [0, address before.length] output) :=
  (takes_copy hRoom hShort ((getElem?_data before rest).trans hZero) output).trans
    (takes_end output)

/-- From any place in the text on, the loop prints what is left, up to the first zero. -/
theorem takes_loop {before rest : List Char} (hRoom : 3 ≤ capacity)
    (hShort : (before ++ rest).length < 2 ^ 31 - 3) (output : List Word) :
    ∃ i, (machine (before ++ rest) capacity input 1 [address before.length] output).Takes
      (7 * (printed rest).length + 3) (19 * (printed rest).length + 8)
      (machine (before ++ rest) capacity input 8 [0, address i]
        (output ++ (printed rest).map Word.ofChar)) := by
  have hPlace : before.length < 2 ^ 31 - 2 := by
    rw [List.length_append] at hShort
    omega
  -- on what is left of the text: each turn moves its first character to what has been printed
  induction rest generalizing before output with
  | nil =>
    refine ⟨before.length, ?_⟩
    rw [printed, List.takeWhile_nil, List.map_nil, List.append_nil output]
    exact takes_last hRoom hPlace rfl output
  | cons c rest ih =>
    by_cases hChar : c = '\x00'
    · have hZero : ((c :: rest).map Word.ofChar ++ [0])[0]? = some 0 :=
        congrArg some (Word.ofChar_eq_zero_iff.mpr hChar)
      have hNone : printed (c :: rest) = [] := List.takeWhile_cons_of_neg (by simp [hChar])
      refine ⟨before.length, ?_⟩
      rw [hNone, List.map_nil, List.append_nil output]
      exact takes_last hRoom hPlace hZero output
    · have hSome : printed (c :: rest) = c :: printed rest :=
        List.takeWhile_cons_of_pos (by simp [hChar])
      have hLength : (before ++ [c]).length = before.length + 1 := List.length_append
      have hTurn := @takes_turn capacity input before rest c hRoom hPlace hChar output
      rw [← hLength] at hTurn
      rw [List.append_cons] at hShort hTurn ⊢
      have hPlace' : (before ++ [c]).length < 2 ^ 31 - 2 := by
        rw [List.length_append] at hShort
        omega
      obtain ⟨i, hRest⟩ := ih hShort (output ++ [Word.ofChar c]) hPlace'
      refine ⟨i, ?_⟩
      rw [hSome, List.map_cons, List.length_cons, List.append_cons output]
      exact (hTurn.trans hRest).cast (by omega) (by omega)

/-- The whole run, from the start to the halt. -/
theorem takes_program (hRoom : 3 ≤ capacity) (hShort : text.length < 2 ^ 31 - 3) :
    ∃ i, (ListMachine.initial (image text) capacity input).Takes (7 * (printed text).length + 4)
      (19 * (printed text).length + 11)
      (machine text capacity input 8 [0, address i] ((printed text).map Word.ofChar)) := by
  have hPush : (machine text capacity input 0 [] []).exec? (.push 2) =
      some (machine text capacity input 1 [address 0] []) :=
    ListMachine.withStack?_of_le (show 1 ≤ capacity by omega)
  obtain ⟨i, hLoop⟩ := @takes_loop capacity input [] text hRoom hShort []
  refine ⟨i, ?_⟩
  exact (ListMachine.Takes.step rfl hPush hLoop).cast rfl (Nat.add_comm _ _)

end

end Greeting

/-- **Printing a text**: whatever the text, the program assembles, and whatever the input, it prints
the characters of the text up to the first zero, in seven instructions and 19 ticks for each of
them. The text is short enough for the addresses of its cells to be words. -/
theorem greeting_prints {text : String}
    (hText : ∀ c ∈ text.toList, c ≠ '"' ∧ c ≠ '\n' ∧ c ≠ '\r')
    (hShort : text.length < 2 ^ 31 - 3) (verbose : Bool) :
    ∃ o, (Assembly.assemble (Greeting.source text) verbose).result = .ok o ∧
      ∀ (input : List Char) (options : Options), 3 ≤ options.stackSize →
        19 * (Greeting.printed text.toList).length + 11 < options.tickLimit →
        (simulate o.image input options).result =
          .ok ⟨(Greeting.printed text.toList).map Word.ofChar,
            7 * (Greeting.printed text.toList).length + 5,
            19 * (Greeting.printed text.toList).length + 12, .halted⟩ := by
  have hQuote : '"' ∉ text.toList := fun hMem => (hText _ hMem).1 rfl
  have hLine : Assembly.OnOneLine text.toList := by
    intro c hMem
    obtain ⟨_, hFeed, hReturn⟩ := hText c hMem
    simp [Assembly.isLineEnd, hFeed, hReturn]
  obtain ⟨o, hResult, hImage⟩ := Greeting.exists_object hQuote hLine verbose
  refine ⟨o, hResult, fun input options hRoom hLimit => ?_⟩
  have hStack : options.stackSize ≠ 0 := by omega
  rw [← String.length_toList] at hShort
  obtain ⟨i, hTakes⟩ := @Greeting.takes_program _ _ input hRoom hShort
  rw [hImage]
  exact simulate_of_takes hStack hTakes rfl hLimit

/-- A comment in quotes is text, and what stands behind a zero is kept but not printed. -/
theorem greeting_prints_zero :
    ∃ o, (Assembly.assemble (Greeting.source "a;b\x00c") false).result = .ok o ∧
      (simulate o.image [] ⟨3, 0, 69⟩).result = .ok ⟨[97, 59, 98], 26, 69, .halted⟩ := by
  have hText : ∀ c ∈ "a;b\x00c".toList, c ≠ '"' ∧ c ≠ '\n' ∧ c ≠ '\r' := by
    have hAll : ("a;b\x00c".toList.all fun c => c ≠ '"' ∧ c ≠ '\n' ∧ c ≠ '\r') = true := rfl
    simpa only [List.all_eq_true, decide_eq_true_eq] using hAll
  obtain ⟨o, hResult, hRuns⟩ := greeting_prints hText (by decide) false
  exact ⟨o, hResult, hRuns [] ⟨3, 0, 69⟩ (by decide) (by decide)⟩

end StackProcessor
