import StackProcessor.Proofs.Assembly.DataLayout
import StackProcessor.Proofs.Assembly.Mnemonics

/-!
# StackProcessor — which statements are allowed

A statement is allowed or not by what stands before it, and by nothing else: whether `.codeHeader`
is among the statements, which `variableName?` and `labelName?` are taken, and how far the data
(`dataEnd`) and the code (`recordCount`) reach. Every statement is either `Admissible` or `Refused`
for a `StatementError`, and the first pass over a program, `Layout.placeAll`, places the statements
that are admissible and stops at the first that is refused. What the two relations say of the
statements so far and what a `Layout` holds are tied by the hypothesis `Layout.Reached`.

## Results
- `admissible_or_refused` : a statement that is not admissible is refused for a cause.
- `Layout.Reached.exists_place` : the first pass places a statement that is admissible.
- `Layout.Reached.place_of_refused` : and stops at one that is not.
- `Layout.Reached.placeAll_cases` : the first pass over a program.
-/

namespace StackProcessor.Assembly

-- ---------------------------------------------------------------------------
-- Statements behind other statements
-- ---------------------------------------------------------------------------

/-- The address behind what is declared. -/
def dataEnd (before : List Statement) : Nat :=
  Word.portCells + Declared.extent (before.filterMap Statement.declared?)

/-- The statement is allowed behind these statements. -/
inductive Admissible (before : List Statement) : Statement → Prop where
  | dataHeader : .codeHeader ∉ before → Admissible before .dataHeader
  | codeHeader : Admissible before .codeHeader
  | declaration {kind name : String} {value : Literal} : .codeHeader ∉ before →
    Declares kind value → name ∉ before.filterMap Statement.variableName? →
    dataEnd before ≤ Word.greatest → Admissible before (.declaration kind name value)
  | label {name : String} : .codeHeader ∈ before →
    name ∉ before.filterMap Statement.labelName? → recordCount before ≤ Word.greatest →
    Admissible before (.label name)
  | instruction {mnemonic : String} {operand : Option Operand} : .codeHeader ∈ before →
    Instructs mnemonic operand → Admissible before (.instruction mnemonic operand)

/-- The statement is not allowed behind these statements, for this cause. -/
inductive Refused (before : List Statement) : Statement → StatementError → Prop where
  | dataHeader : .codeHeader ∈ before → Refused before .dataHeader .dataAfterCode
  | label {name : String} : .codeHeader ∉ before →
    Refused before (.label name) .notADeclaration
  | instruction {mnemonic : String} {operand : Option Operand} : .codeHeader ∉ before →
    Refused before (.instruction mnemonic operand) .notADeclaration
  | declaration {kind name : String} {value : Literal} : .codeHeader ∈ before →
    Refused before (.declaration kind name value) .declarationInCode
  | undeclarable {kind name : String} {value : Literal} {cause : StatementError} :
    .codeHeader ∉ before → Undeclarable kind value cause →
    Refused before (.declaration kind name value) cause
  | duplicateVariable {kind name : String} {value : Literal} : .codeHeader ∉ before →
    Declares kind value → name ∈ before.filterMap Statement.variableName? →
    Refused before (.declaration kind name value) (.duplicateVariable name)
  | dataTooLarge {kind name : String} {value : Literal} : .codeHeader ∉ before →
    Declares kind value → name ∉ before.filterMap Statement.variableName? →
    Word.greatest < dataEnd before → Refused before (.declaration kind name value) .dataTooLarge
  | duplicateLabel {name : String} : .codeHeader ∈ before →
    name ∈ before.filterMap Statement.labelName? →
    Refused before (.label name) (.duplicateLabel name)
  | codeTooLarge {name : String} : .codeHeader ∈ before →
    name ∉ before.filterMap Statement.labelName? → Word.greatest < recordCount before →
    Refused before (.label name) .codeTooLarge
  | uninstructable {mnemonic : String} {operand : Option Operand} {cause : StatementError} :
    .codeHeader ∈ before → Uninstructable mnemonic operand cause →
    Refused before (.instruction mnemonic operand) cause

/-- A statement that is not admissible is refused for a cause. -/
theorem admissible_or_refused (before : List Statement) (s : Statement) :
    Admissible before s ∨ ∃ cause, Refused before s cause := by
  by_cases hCode : .codeHeader ∈ before
  · cases s with
    | dataHeader => exact Or.inr ⟨_, .dataHeader hCode⟩
    | codeHeader => exact Or.inl .codeHeader
    | declaration kind name value => exact Or.inr ⟨_, .declaration hCode⟩
    | label name =>
      by_cases hTaken : name ∈ before.filterMap Statement.labelName?
      · exact Or.inr ⟨_, .duplicateLabel hCode hTaken⟩
      · rcases Int.lt_or_le Word.greatest (recordCount before) with hLarge | hSmall
        · exact Or.inr ⟨_, .codeTooLarge hCode hTaken hLarge⟩
        · exact Or.inl (.label hCode hTaken hSmall)
    | instruction mnemonic operand =>
      rcases instructs_or_uninstructable mnemonic operand with hPossible | ⟨cause, hCause⟩
      · exact Or.inl (.instruction hCode hPossible)
      · exact Or.inr ⟨cause, .uninstructable hCode hCause⟩
  · cases s with
    | dataHeader => exact Or.inl (.dataHeader hCode)
    | codeHeader => exact Or.inl .codeHeader
    | label name => exact Or.inr ⟨_, .label hCode⟩
    | instruction mnemonic operand => exact Or.inr ⟨_, .instruction hCode⟩
    | declaration kind name value =>
      rcases declares_or_undeclarable kind value with hPossible | ⟨cause, hCause⟩
      · by_cases hTaken : name ∈ before.filterMap Statement.variableName?
        · exact Or.inr ⟨_, .duplicateVariable hCode hPossible hTaken⟩
        · rcases Int.lt_or_le Word.greatest (dataEnd before) with hLarge | hSmall
          · exact Or.inr ⟨_, .dataTooLarge hCode hPossible hTaken hLarge⟩
          · exact Or.inl (.declaration hCode hPossible hTaken hSmall)
      · exact Or.inr ⟨cause, .undeclarable hCode hCause⟩

/-- No statement is both. -/
theorem Admissible.not_refused {before : List Statement} {s : Statement} {cause : StatementError}
    (h : Admissible before s) : ¬Refused before s cause := by
  intro hRefused
  cases h with
  | dataHeader hData =>
    cases hRefused with
    | dataHeader hCode => exact hData hCode
  | codeHeader => cases hRefused
  | declaration hData hDeclares hNew hSpace =>
    cases hRefused with
    | declaration hCode => exact hData hCode
    | undeclarable _ hCause => exact hDeclares.not_undeclarable hCause
    | duplicateVariable _ _ hTaken => exact hNew hTaken
    | dataTooLarge _ _ _ hLarge => exact Int.not_le.mpr hLarge hSpace
  | label hCode hNew hSpace =>
    cases hRefused with
    | label hData => exact hData hCode
    | duplicateLabel _ hTaken => exact hNew hTaken
    | codeTooLarge _ _ hLarge => exact Int.not_le.mpr hLarge hSpace
  | instruction hCode hInstructs =>
    cases hRefused with
    | instruction hData => exact hData hCode
    | uninstructable _ hCause => exact hInstructs.not_uninstructable hCause

/-- Every statement of the program is allowed behind those before it. -/
def AllAdmissible (program : List Statement) : Prop :=
  ∀ before s after, program = before ++ s :: after → Admissible before s

theorem allAdmissible_nil : AllAdmissible [] := by
  intro before s after hSplit
  cases before <;> cases hSplit

theorem AllAdmissible.of_append {program rest : List Statement}
    (h : AllAdmissible (program ++ rest)) : AllAdmissible program :=
  fun before s after hSplit => h before s (after ++ rest) (by simp [hSplit])

theorem AllAdmissible.append_one {program : List Statement} (h : AllAdmissible program)
    {s : Statement} (hLast : Admissible program s) : AllAdmissible (program ++ [s]) := by
  intro before s' after hSplit
  have hPrefix : before ++ [s'] <+: program ++ [s] := ⟨after, by rw [hSplit]; simp⟩
  rcases List.prefix_concat_iff.mp hPrefix with hSame | ⟨rest, hBefore⟩
  · obtain ⟨rfl, hEq⟩ := List.append_inj' hSame rfl
    cases hEq
    exact hLast
  · exact h before s' rest (by rw [← hBefore]; simp)

/-- Behind the header of the code section, instructions are allowed in any order. -/
theorem allAdmissible_code {program : List Statement}
    (h : ∀ s ∈ program, ∃ mnemonic operand, s = .instruction mnemonic operand ∧
      Instructs mnemonic operand) : AllAdmissible (.codeHeader :: program) := by
  intro before s after hSplit
  cases before with
  | nil =>
    cases hSplit
    exact .codeHeader
  | cons first rest =>
    obtain ⟨rfl, rfl⟩ := List.cons.inj hSplit
    obtain ⟨mnemonic, operand, rfl, hInstructs⟩ := h s (by simp)
    exact .instruction List.mem_cons_self hInstructs

-- ---------------------------------------------------------------------------
-- What the first pass has reached
-- ---------------------------------------------------------------------------

/-- The records of a statement, with the line on which it stands. -/
def Located.placeholders (s : Located) : List Placeholder :=
  s.statement.records.map fun record => ⟨record.1, record.2, s.line⟩

namespace Layout

/-- The first pass has placed these statements. -/
structure Reached (before : List Located) (l : Layout) : Prop where
  placed : Placed (before.map Located.statement) l
  filled : Filled (before.map Located.statement) l
  part : l.part = if .codeHeader ∈ before.map Located.statement then .code else .data
  code : l.code.toList = before.flatMap Located.placeholders

theorem reached_empty : Reached [] empty where
  placed := placed_empty
  filled := filled_empty
  part := rfl
  code := rfl

/-- The first pass goes on behind what it has placed. -/
theorem placeAll_append {l l' : Layout} {done : List Located}
    (h : l.placeAll done = (l', none)) (rest : List Located) :
    l.placeAll (done ++ rest) = l'.placeAll rest := by
  induction done generalizing l with
  | nil =>
    cases h
    rfl
  | cons s others ih =>
    cases hPlace : l.place s.line s.statement with
    | ok next =>
      simp only [placeAll, List.cons_append, hPlace] at h ⊢
      exact ih h
    | error cause =>
      simp only [placeAll, hPlace] at h
      cases h

theorem part_of_place {l l' : Layout} {line : Nat} {s : Statement}
    (h : l.place line s = .ok l') : l'.part = if s = .codeHeader then .code else l.part := by
  unfold place at h
  split at h
  · cases h
    rfl
  · cases h
  · cases h
    rfl
  · obtain ⟨cells, _, hDeclare⟩ := exists_of_bind_eq_ok h
    unfold declare at hDeclare
    split at hDeclare
    · cases hDeclare
    · split at hDeclare <;> cases hDeclare
      rfl
  · cases h
  · unfold mark at h
    split at h
    · cases h
    · split at h <;> cases h
      rfl
  · obtain ⟨records, _, rfl⟩ := exists_of_map_eq_ok h
    rfl
  · cases h

theorem code_of_place {l l' : Layout} {s : Located} (h : l.place s.line s.statement = .ok l') :
    l'.code.toList = l.code.toList ++ s.placeholders := by
  rcases s with ⟨line, text, _ | _ | name | ⟨kind, name, value⟩ | ⟨mnemonic, operand⟩⟩
  all_goals cases hPart : l.part <;> simp only [place, hPart] at h
  · cases h
    exact (List.append_nil _).symm
  · cases h
  · cases h
    exact (List.append_nil _).symm
  · cases h
    exact (List.append_nil _).symm
  · cases h
  · unfold mark at h
    split at h
    · cases h
    · split at h <;> cases h
      exact (List.append_nil _).symm
  · obtain ⟨cells, _, hDeclare⟩ := exists_of_bind_eq_ok h
    unfold declare at hDeclare
    split at hDeclare
    · cases hDeclare
    · split at hDeclare <;> cases hDeclare
      exact (List.append_nil _).symm
  · cases h
  · cases h
  · obtain ⟨records, hRecords, rfl⟩ := exists_of_map_eq_ok h
    rw [Located.placeholders, ← expansion_eq_records hRecords]
    simp [emit]

/-- There is room at an address that is a word. -/
theorem ofInt?_of_le {n : Nat} (h : (n : Int) ≤ Word.greatest) :
    Word.ofInt? n = some (Word.wrap n) := by
  have hLeast : Word.least ≤ n := by
    unfold Word.least
    omega
  exact if_pos ⟨hLeast, h⟩

theorem ofInt?_of_lt {n : Nat} (h : Word.greatest < (n : Int)) : Word.ofInt? n = none :=
  if_neg fun hRange => Int.not_lt.mpr hRange.2 h

namespace Reached

variable {before : List Located} {l : Layout} (h : Reached before l)

include h

theorem defines_variable_iff (name : String) :
    l.symbols.variableTable.defines name = true ↔
      name ∈ (before.map Located.statement).filterMap Statement.variableName? := by
  rw [SymbolTable.defines_iff_mem_names, h.placed.variableTable.names, variableSites, names_sites]

theorem defines_label_iff (name : String) :
    l.symbols.labelTable.defines name = true ↔
      name ∈ (before.map Located.statement).filterMap Statement.labelName? := by
  rw [SymbolTable.defines_iff_mem_names, h.placed.labelTable.names, labelSites, names_sites]

theorem size_data : l.data.size = dataEnd (before.map Located.statement) := by
  rw [h.placed.data, dataEnd, ← length_cells h.filled.declarable, List.length_flatMap]

theorem size_code : l.code.size = recordCount (before.map Located.statement) := by
  rw [h.placed.size_code, sum_length_records]

/-- One more statement that was placed. -/
theorem append_one {s : Located} {l' : Layout} (hPlace : l.place s.line s.statement = .ok l') :
    Reached (before ++ [s]) l' where
  placed := by
    rw [List.map_append]
    exact placed_place h.placed hPlace
  filled := by
    rw [List.map_append]
    exact filled_place h.filled hPlace
  part := by
    rw [part_of_place hPlace, h.part, List.map_append]
    by_cases hHeader : s.statement = .codeHeader
    · simp [hHeader]
    · simp [hHeader, Ne.symm hHeader]
  code := by
    rw [code_of_place hPlace, h.code, List.flatMap_append, List.flatMap_singleton]

theorem part_eq_data (hData : .codeHeader ∉ before.map Located.statement) : l.part = .data := by
  rw [h.part, if_neg hData]

theorem part_eq_code (hCode : .codeHeader ∈ before.map Located.statement) : l.part = .code := by
  rw [h.part, if_pos hCode]

/-- What the first pass does with a statement that is admissible. -/
theorem exists_place {line : Nat} {s : Statement}
    (hAdmissible : Admissible (before.map Located.statement) s) :
    ∃ l', l.place line s = .ok l' := by
  cases hAdmissible with
  | dataHeader hData => exact ⟨l, by simp only [place, h.part_eq_data hData]⟩
  | codeHeader =>
    refine ⟨{ l with part := .code }, ?_⟩
    cases hPart : l.part <;> simp only [place, hPart]
  | @declaration _ name _ hData hDeclares hNew hSpace =>
    obtain ⟨cells, hCells⟩ := exists_declaredCells hDeclares
    rw [← h.defines_variable_iff] at hNew
    rw [← h.size_data] at hSpace
    simp only [place, h.part_eq_data hData, hCells]
    show ∃ l', l.declare name cells = .ok l'
    rw [declare, if_neg hNew, ofInt?_of_le hSpace]
    exact ⟨_, rfl⟩
  | @label name hCode hNew hSpace =>
    rw [← h.defines_label_iff] at hNew
    rw [← h.size_code] at hSpace
    simp only [place, h.part_eq_code hCode]
    rw [mark, if_neg hNew, ofInt?_of_le hSpace]
    exact ⟨_, rfl⟩
  | instruction hCode hInstructs =>
    obtain ⟨records, hRecords⟩ := exists_expansion hInstructs
    simp only [place, h.part_eq_code hCode, hRecords]
    exact ⟨_, rfl⟩

/-- What the first pass does with a statement that is refused. -/
theorem place_of_refused {line : Nat} {s : Statement} {cause : StatementError}
    (hRefused : Refused (before.map Located.statement) s cause) :
    l.place line s = .error cause := by
  cases hRefused with
  | dataHeader hCode => simp only [place, h.part_eq_code hCode]
  | label hData => simp only [place, h.part_eq_data hData]
  | instruction hData => simp only [place, h.part_eq_data hData]
  | declaration hCode => simp only [place, h.part_eq_code hCode]
  | undeclarable hData hCause =>
    simp only [place, h.part_eq_data hData, declaredCells_of_undeclarable hCause]
    rfl
  | @duplicateVariable _ name _ hData hDeclares hTaken =>
    obtain ⟨cells, hCells⟩ := exists_declaredCells hDeclares
    rw [← h.defines_variable_iff] at hTaken
    simp only [place, h.part_eq_data hData, hCells]
    show l.declare name cells = _
    rw [declare, if_pos hTaken]
  | @dataTooLarge _ name _ hData hDeclares hNew hLarge =>
    obtain ⟨cells, hCells⟩ := exists_declaredCells hDeclares
    rw [← h.defines_variable_iff] at hNew
    rw [← h.size_data] at hLarge
    simp only [place, h.part_eq_data hData, hCells]
    show l.declare name cells = _
    rw [declare, if_neg hNew, ofInt?_of_lt hLarge]
  | @duplicateLabel name hCode hTaken =>
    rw [← h.defines_label_iff] at hTaken
    simp only [place, h.part_eq_code hCode]
    rw [mark, if_pos hTaken]
  | @codeTooLarge name hCode hNew hLarge =>
    rw [← h.defines_label_iff] at hNew
    rw [← h.size_code] at hLarge
    simp only [place, h.part_eq_code hCode]
    rw [mark, if_neg hNew, ofInt?_of_lt hLarge]
  | uninstructable hCode hCause =>
    simp only [place, h.part_eq_code hCode, expansion_of_uninstructable hCause]
    rfl

/-- The first pass places all statements, or stops at the first that is refused. -/
theorem placeAll_cases (hBefore : AllAdmissible (before.map Located.statement))
    (rest : List Located) :
    (∃ l', l.placeAll rest = (l', none) ∧ Reached (before ++ rest) l' ∧
      AllAdmissible ((before ++ rest).map Located.statement)) ∨
    ∃ done s after cause l', before ++ rest = done ++ s :: after ∧
      AllAdmissible (done.map Located.statement) ∧
      Refused (done.map Located.statement) s.statement cause ∧
      l.placeAll rest = (l', some (.badStatement s.line s.text cause)) := by
  induction rest generalizing before l with
  | nil => exact Or.inl ⟨l, rfl, by rwa [List.append_nil], by rwa [List.append_nil]⟩
  | cons s rest ih =>
    rcases admissible_or_refused (before.map Located.statement) s.statement with
      hAdmissible | ⟨cause, hRefused⟩
    · obtain ⟨next, hPlace⟩ := h.exists_place hAdmissible
      have hNext := h.append_one hPlace
      have hAll : AllAdmissible ((before ++ [s]).map Located.statement) := by
        rw [List.map_append]
        exact hBefore.append_one hAdmissible
      have hRest : l.placeAll (s :: rest) = next.placeAll rest := by
        simp only [placeAll, hPlace]
      rw [hRest, List.append_cons]
      exact ih hNext hAll
    · refine Or.inr ⟨before, s, rest, cause, l, rfl, hBefore, hRefused, ?_⟩
      simp only [placeAll, h.place_of_refused hRefused]

end Reached

end Layout

end StackProcessor.Assembly
