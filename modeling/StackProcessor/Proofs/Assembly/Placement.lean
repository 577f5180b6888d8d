import StackProcessor.Proofs.Assembly.Sites
import StackProcessor.Proofs.Basic

/-!
# StackProcessor — placed programs

What the first pass over a program has reached is described by the statements placed so far:
`Placed ss l`. One more statement adds its records, its cells and its site, which is counted by the
records or cells that are there already; so the tables that the pass builds list the sites of the
program (`labelSites`, `variableSites`). A statement is placed only if it has an expansion, so what
is placed is `Expandable`.

`Layout.place` is the step and `Layout.placeAll` the run: what a step keeps, a run that stops
nowhere keeps (`Layout.placeAll_induction`).

## Results
- `expansion_eq_records` : an instruction is expanded to the records of its statement.
- `Layout.placed_place` : what one statement adds.
- `Layout.placeAll_induction` : what each statement keeps, all of them keep.
- `Layout.placed_placeAll` : what all of them come to.
-/

namespace StackProcessor.Assembly

-- ---------------------------------------------------------------------------
-- Expansions
-- ---------------------------------------------------------------------------

/-- Every instruction has an expansion. -/
def Expandable (ss : List Statement) : Prop :=
  ∀ mnemonic operand, .instruction mnemonic operand ∈ ss →
    ∃ records, expansion mnemonic operand = .ok records

theorem word_of_literal {n : IntegerLiteral} {w : Word} (h : n.word = .ok w) :
    w = Word.wrap n.value ∧ w.toInt = n.value := by
  unfold IntegerLiteral.word at h
  split at h
  · rename_i v hWord
    cases h
    exact ⟨(Word.wrap_of_ofInt? hWord).symm, Word.toInt_of_ofInt? hWord⟩
  · cases h

theorem argument_eq_meaning {operand : Operand} {a : Argument} (h : operand.argument = .ok a) :
    a = operand.meaning := by
  cases operand with
  | symbol name =>
    cases h
    rfl
  | integer n =>
    obtain ⟨w, hWord, rfl⟩ := exists_of_map_eq_ok h
    rw [Operand.meaning, (word_of_literal hWord).1]

/-- The record of an instruction that is no shorthand. -/
theorem plainRecord_eq {mnemonic : String} {operand : Option Operand}
    {record : Opcode × Option Argument} (h : plainRecord mnemonic operand = .ok record) :
    Opcode.ofMnemonic? mnemonic = some record.1 ∧ record.2 = operand.map Operand.meaning := by
  unfold plainRecord at h
  split at h
  · cases h
  · rename_i opcode hOpcode
    split at h
    · cases h
    · split at h
      · obtain ⟨a, hArgument, rfl⟩ := exists_of_map_eq_ok h
        refine ⟨hOpcode, ?_⟩
        rw [argument_eq_meaning hArgument]
        rfl
      · cases h
      · cases h
      · cases h
        exact ⟨hOpcode, rfl⟩

theorem shorthand?_eq_none {mnemonic : String} (hInput : mnemonic ≠ "inp")
    (hOutput : mnemonic ≠ "out") : shorthand? mnemonic = none := by
  unfold shorthand?
  split
  · exact absurd rfl hInput
  · exact absurd rfl hOutput
  · rfl

/-- An instruction that is no shorthand is expanded to one record of its opcode. -/
theorem records_of_expansion {mnemonic : String} {operand : Option Operand}
    {records : List (Opcode × Option Argument)} (h : expansion mnemonic operand = .ok records)
    (hInput : mnemonic ≠ "inp") (hOutput : mnemonic ≠ "out") :
    ∃ opcode, Opcode.ofMnemonic? mnemonic = some opcode ∧
      records = [(opcode, operand.map Operand.meaning)] := by
  rw [expansion, shorthand?_eq_none hInput hOutput] at h
  obtain ⟨record, hRecord, rfl⟩ := exists_of_map_eq_ok h
  obtain ⟨hOpcode, hArgument⟩ := plainRecord_eq hRecord
  refine ⟨record.1, hOpcode, ?_⟩
  rw [← hArgument]

/-- An instruction that is accepted is expanded to the records of its statement. -/
theorem expansion_eq_records {mnemonic : String} {operand : Option Operand}
    {records : List (Opcode × Option Argument)} (h : expansion mnemonic operand = .ok records) :
    records = (Statement.instruction mnemonic operand).records := by
  by_cases hInput : mnemonic = "inp"
  · subst hInput
    cases operand <;> cases h
    rfl
  · by_cases hOutput : mnemonic = "out"
    · subst hOutput
      cases operand <;> cases h
      rfl
    · obtain ⟨opcode, hOpcode, hRecords⟩ := records_of_expansion h hInput hOutput
      rw [Statement.records, if_neg hInput, if_neg hOutput, hOpcode, hRecords]

/-- An integer operand that is accepted is a word. -/
theorem toInt_wrap_of_expansion {mnemonic : String} {n : IntegerLiteral}
    {records : List (Opcode × Option Argument)}
    (h : expansion mnemonic (some (.integer n)) = .ok records) :
    (Word.wrap n.value).toInt = n.value := by
  unfold expansion at h
  split at h
  · cases h
  · obtain ⟨record, hRecord, _⟩ := exists_of_map_eq_ok h
    unfold plainRecord at hRecord
    split at hRecord
    · cases hRecord
    · split at hRecord
      · cases hRecord
      · split at hRecord
        · rename_i hOperand
          cases hOperand
          obtain ⟨a, hArgument, _⟩ := exists_of_map_eq_ok hRecord
          obtain ⟨w, hWord, _⟩ := exists_of_map_eq_ok hArgument
          obtain ⟨hWrap, hInt⟩ := word_of_literal hWord
          rwa [← hWrap]
        · cases hRecord
        · cases hRecord
        · rename_i hOperand
          cases hOperand

-- ---------------------------------------------------------------------------
-- The first pass
-- ---------------------------------------------------------------------------

/-- The labels of a program, with the numbers of records before them. -/
def labelSites (ss : List Statement) : List (String × Nat) :=
  sites Statement.labelName? (fun s => s.records.length) 0 ss

/-- The variables of a program, with the numbers of memory cells before them. -/
def variableSites (ss : List Statement) : List (String × Nat) :=
  sites Statement.variableName? (fun s => s.cells.length) Word.portCells ss

namespace Layout

/-- What the records say, without the lines that they come from. -/
def contents (l : Layout) : List (Opcode × Option Argument) :=
  l.code.toList.map fun p => (p.opcode, p.argument)

/-- The layout is the one of a program that consists of these statements. -/
structure Placed (ss : List Statement) (l : Layout) : Prop where
  code : l.contents = ss.flatMap Statement.records
  data : l.data.size = Word.portCells + (ss.map fun s => s.cells.length).sum
  labelTable : l.symbols.labelTable.Lists (labelSites ss)
  variableTable : l.symbols.variableTable.Lists (variableSites ss)
  expandable : Expandable ss

theorem placed_empty : Placed [] empty where
  code := rfl
  data := by simp [empty]
  labelTable := SymbolTable.lists_nil
  variableTable := SymbolTable.lists_nil
  expandable := fun _ _ hMem => absurd hMem List.not_mem_nil

theorem Placed.size_code {ss : List Statement} {l : Layout} (h : Placed ss l) :
    l.code.size = (ss.map fun s => s.records.length).sum := by
  have hLength := congrArg List.length h.code
  simpa [contents, List.length_flatMap] using hLength

/-- One more statement, given what it adds. -/
theorem Placed.append_one {ss : List Statement} {s : Statement} {l l' : Layout} (h : Placed ss l)
    (hCode : l'.contents = l.contents ++ s.records)
    (hData : l'.data.size = l.data.size + s.cells.length)
    (hLabels : l'.symbols.labelTable.Lists
      (labelSites ss ++ s.labelName?.toList.map (·, l.code.size)))
    (hVariables : l'.symbols.variableTable.Lists
      (variableSites ss ++ s.variableName?.toList.map (·, l.data.size)))
    (hExpansion : ∀ mnemonic operand, s = .instruction mnemonic operand →
      ∃ records, expansion mnemonic operand = .ok records) : Placed (ss ++ [s]) l' where
  code := by
    rw [hCode, h.code]
    simp
  data := by
    rw [hData, h.data]
    simp
    omega
  labelTable := by
    rw [h.size_code] at hLabels
    rw [labelSites, sites_append]
    simpa [sites, labelSites] using hLabels
  variableTable := by
    rw [h.data] at hVariables
    rw [variableSites, sites_append]
    simpa [sites, variableSites] using hVariables
  expandable := by
    intro mnemonic operand hMem
    rcases List.mem_append.mp hMem with hBefore | hHere
    · exact h.expandable mnemonic operand hBefore
    · exact hExpansion mnemonic operand (List.mem_singleton.mp hHere).symm

/-- A statement that adds nothing. -/
theorem Placed.append_header {ss : List Statement} {s : Statement} {l : Layout} (h : Placed ss l)
    (hHeader : s = .dataHeader ∨ s = .codeHeader) (part : Part) :
    Placed (ss ++ [s]) { l with part := part } := by
  rcases hHeader with rfl | rfl
  all_goals
    refine h.append_one ?_ rfl ?_ ?_ nofun
    · exact (List.append_nil _).symm
    · simpa [Statement.labelName?] using h.labelTable
    · simpa [Statement.variableName?] using h.variableTable

theorem Placed.append_declaration {ss : List Statement} {kind name : String} {value : Literal}
    {cells : List Word} {l l' : Layout} (h : Placed ss l)
    (hCells : declaredCells kind value = .ok cells) (hDeclare : l.declare name cells = .ok l') :
    Placed (ss ++ [.declaration kind name value]) l' := by
  have hDeclared : (Statement.declaration kind name value).cells = cells := by
    simp only [Statement.cells, hCells]
  unfold declare at hDeclare
  split at hDeclare
  · cases hDeclare
  · rename_i hNew
    split at hDeclare
    · cases hDeclare
    · rename_i address hAddress
      cases hDeclare
      refine h.append_one ?_ ?_ ?_ ?_ nofun
      · exact (List.append_nil _).symm
      · have hAppend : (l.data ++ cells).toList = l.data.toList ++ cells := by simp
        rw [hDeclared, ← Array.length_toList, hAppend, List.length_append, Array.length_toList]
      · simpa [Statement.labelName?] using h.labelTable
      · exact h.variableTable.define hNew (Word.toInt_of_ofInt? hAddress)

theorem Placed.append_label {ss : List Statement} {name : String} {l l' : Layout}
    (h : Placed ss l) (hMark : l.mark name = .ok l') : Placed (ss ++ [.label name]) l' := by
  unfold mark at hMark
  split at hMark
  · cases hMark
  · rename_i hNew
    split at hMark
    · cases hMark
    · rename_i address hAddress
      cases hMark
      refine h.append_one ?_ rfl ?_ ?_ nofun
      · exact (List.append_nil _).symm
      · exact h.labelTable.define hNew (Word.toInt_of_ofInt? hAddress)
      · simpa [Statement.variableName?] using h.variableTable

theorem Placed.append_instruction {ss : List Statement} {mnemonic : String}
    {operand : Option Operand} {records : List (Opcode × Option Argument)} {l : Layout}
    (h : Placed ss l) (hExpansion : expansion mnemonic operand = .ok records) (line : Nat) :
    Placed (ss ++ [.instruction mnemonic operand]) (l.emit line records) := by
  have hRecords := expansion_eq_records hExpansion
  refine h.append_one ?_ rfl ?_ ?_ ?_
  · rw [← hRecords]
    simp [contents, emit, Function.comp_def]
  · simpa [Statement.labelName?, emit] using h.labelTable
  · simpa [Statement.variableName?, emit] using h.variableTable
  · rintro _ _ ⟨rfl, rfl⟩
    exact ⟨records, hExpansion⟩

/-- What one statement adds. -/
theorem placed_place {ss : List Statement} {s : Statement} {l l' : Layout} (h : Placed ss l)
    {line : Nat} (hPlace : l.place line s = .ok l') : Placed (ss ++ [s]) l' := by
  unfold place at hPlace
  split at hPlace
  · cases hPlace
    exact h.append_header (Or.inl rfl) l.part
  · cases hPlace
  · cases hPlace
    exact h.append_header (Or.inr rfl) .code
  · obtain ⟨cells, hCells, hDeclare⟩ := exists_of_bind_eq_ok hPlace
    exact h.append_declaration hCells hDeclare
  · cases hPlace
  · exact h.append_label hPlace
  · obtain ⟨records, hRecords, rfl⟩ := exists_of_map_eq_ok hPlace
    exact h.append_instruction hRecords line
  · cases hPlace

/-- What holds of the program so far after each statement holds of the whole program in the end. -/
theorem placeAll_induction {P : List Statement → Layout → Prop}
    (hStep : ∀ {ss s l l'}, P ss l → ∀ {line : Nat}, l.place line s = .ok l' → P (ss ++ [s]) l')
    {ss : List Statement} {l l' : Layout} (h : P ss l) {located : List Located}
    (hPlace : l.placeAll located = (l', none)) : P (ss ++ located.map Located.statement) l' := by
  induction located generalizing ss l with
  | nil =>
    cases hPlace
    simpa using h
  | cons s rest ih =>
    rw [placeAll] at hPlace
    split at hPlace
    · rename_i next hNext
      have hRest := ih (hStep h hNext) hPlace
      simpa using hRest
    · cases hPlace

/-- What all statements come to. -/
theorem placed_placeAll {ss : List Statement} {l l' : Layout} (h : Placed ss l)
    {located : List Located} (hPlace : l.placeAll located = (l', none)) :
    Placed (ss ++ located.map Located.statement) l' :=
  placeAll_induction placed_place h hPlace

end Layout

end StackProcessor.Assembly
