import StackProcessor.Proofs.Assembly.Admission
import StackProcessor.Proofs.Assembly.Spans

/-!
# StackProcessor — which programs assemble

A program assembles if `AllAdmissible` holds of its statements and it is `ClosedIn` itself: every
operand that is a name (`Statement.reference?`) is the name of a variable or of a label (`Names`),
wherever that is declared. Otherwise it has a `FirstError`, which is one of two. The constructor
`statement` is the first statement that is `Refused` behind those before it, even if an operand
before it names nothing; `reference` is the first operand that names nothing, in a program whose
statements are all allowed. That is how the two passes go: `Layout.placeAll` does not look names up,
and `resolveAll` is not run behind an error.

## Results
- `snd_resolveAll` : the second pass stops at the first operand that does not resolve.
- `result_of_firstError`, `exists_result_of_closed` : what a program that was read assembles to.
- `firstError_or_closed` : a program has a first error, or none.
- `assemble_or_first_error` : all of this for a source text, with the messages; the hypothesis is
  that `readSource` reads the text.
-/

namespace StackProcessor.Assembly

-- ---------------------------------------------------------------------------
-- References
-- ---------------------------------------------------------------------------

/-- The name that is the operand of an instruction. -/
def Statement.reference? : Statement → Option String
  | instruction _ (some (.symbol name)) => some name
  | _ => none

/-- Something in the program has the name. -/
def Names (program : List Statement) (name : String) : Prop :=
  name ∈ program.filterMap Statement.variableName? ∨ name ∈ program.filterMap Statement.labelName?

/-- All references of these statements are to names in the program. -/
def ClosedIn (program : List Statement) (ss : List Located) : Prop :=
  ∀ s ∈ ss, ∀ name, s.statement.reference? = some name → Names program name

/-- A name resolves if something has it. -/
theorem Layout.Reached.resolve_isSome_iff {program : List Located} {l : Layout}
    (h : l.Reached program) (name : String) :
    (l.symbols.resolve name).isSome = true ↔ Names (program.map Located.statement) name := by
  rw [Names, ← h.defines_variable_iff, ← h.defines_label_iff, Symbols.resolve,
    Option.orElse_eq_orElse, Option.orElse_eq_or, Option.isSome_or, Bool.or_eq_true]
  rfl

-- ---------------------------------------------------------------------------
-- The second pass
-- ---------------------------------------------------------------------------

/-- Why a record has no operand. -/
def Placeholder.error? (symbols : Symbols) (p : Placeholder) : Option AssemblyError :=
  match p.resolve symbols with
  | .error e => some e
  | .ok _ => none

/-- The second pass stops at the first operand that does not resolve. -/
theorem snd_resolveAll (symbols : Symbols) (start : Nat) (ps : List Placeholder) :
    (resolveAll symbols start ps).2 = ps.findSome? (Placeholder.error? symbols) := by
  induction ps generalizing start with
  | nil => rfl
  | cons p rest ih =>
    rw [resolveAll, List.findSome?_cons, Placeholder.error?]
    cases p.resolve symbols with
    | error e => rfl
    | ok arg => exact ih (start + 1)

/-- Why a statement refers to nothing. -/
def Located.error? (symbols : Symbols) (s : Located) : Option AssemblyError :=
  s.statement.reference?.bind fun name =>
    if (symbols.resolve name).isSome then none else some (.undefinedSymbol s.line name)

theorem records_mnemonic (op : Opcode) (operand : Option Operand) :
    (Statement.instruction op.mnemonic operand).records =
      [(op, operand.map Operand.meaning)] := by
  cases op <;> rfl

/-- Of the records of a statement, the one with its reference does not resolve. -/
theorem findSome?_placeholders (symbols : Symbols) {before : List Statement} {s : Located}
    (h : Admissible before s.statement) :
    s.placeholders.findSome? (Placeholder.error? symbols) = s.error? symbols := by
  obtain ⟨line, text, statement⟩ := s
  cases h with
  | dataHeader => rfl
  | codeHeader => rfl
  | declaration => rfl
  | label => rfl
  | instruction _ hInstructs =>
    cases hInstructs with
    | bare hAlone =>
      rcases List.mem_append.mp hAlone with hShorthand | hBare
      · simp only [shorthands, List.mem_cons, List.not_mem_nil, or_false] at hShorthand
        rcases hShorthand with rfl | rfl <;> rfl
      · obtain ⟨op, _, _, rfl⟩ := mem_bareMnemonics_iff.mp hBare
        rw [Located.placeholders, records_mnemonic]
        rfl
    | integer hOperand _ =>
      obtain ⟨op, _, _, rfl⟩ := mem_operandMnemonics_iff.mp hOperand
      rw [Located.placeholders, records_mnemonic]
      rfl
    | symbol name hOperand =>
      obtain ⟨op, _, _, rfl⟩ := mem_operandMnemonics_iff.mp hOperand
      rw [Located.placeholders, records_mnemonic]
      show [Placeholder.mk op (some (.symbol name)) line].findSome? (Placeholder.error? symbols) =
        if (symbols.resolve name).isSome then none else some (.undefinedSymbol line name)
      rw [List.findSome?_singleton, Placeholder.error?, Placeholder.resolve]
      cases hResolve : symbols.resolve name <;> simp [hResolve]

theorem findSome?_flatMap_placeholders (symbols : Symbols) {ss : List Located}
    (h : ∀ s ∈ ss, ∃ before, Admissible before s.statement) :
    (ss.flatMap Located.placeholders).findSome? (Placeholder.error? symbols) =
      ss.findSome? (Located.error? symbols) := by
  induction ss with
  | nil => rfl
  | cons s rest ih =>
    obtain ⟨⟨before, hHere⟩, hRest⟩ := List.forall_mem_cons.mp h
    rw [List.flatMap_cons, List.findSome?_append, findSome?_placeholders symbols hHere, ih hRest,
      List.findSome?_cons]
    cases s.error? symbols <;> rfl

-- ---------------------------------------------------------------------------
-- First errors
-- ---------------------------------------------------------------------------

/-- The first error of a program. -/
inductive FirstError (program : List Located) : AssemblyError → Prop where
  /-- The first statement that is not allowed behind those before it. -/
  | statement {before after : List Located} {s : Located} {cause : StatementError} :
    program = before ++ s :: after → AllAdmissible (before.map Located.statement) →
    Refused (before.map Located.statement) s.statement cause →
    FirstError program (.badStatement s.line s.text cause)
  /-- Where all statements are allowed, the first that refers to nothing. -/
  | reference {before after : List Located} {s : Located} {name : String} :
    AllAdmissible (program.map Located.statement) → program = before ++ s :: after →
    ClosedIn (program.map Located.statement) before → s.statement.reference? = some name →
    ¬Names (program.map Located.statement) name →
    FirstError program (.undefinedSymbol s.line name)

theorem AllAdmissible.exists_admissible {program : List Located}
    (h : AllAdmissible (program.map Located.statement)) :
    ∀ s ∈ program, ∃ before, Admissible before s.statement := by
  intro s hMem
  obtain ⟨before, after, rfl⟩ := List.append_of_mem hMem
  exact ⟨_, h (before.map Located.statement) s.statement (after.map Located.statement) (by simp)⟩

/-- The first pass goes through a program whose statements are all allowed. -/
theorem exists_reached {program : List Located}
    (h : AllAdmissible (program.map Located.statement)) :
    ∃ l, Layout.empty.placeAll program = (l, none) ∧ l.Reached program := by
  rcases Layout.reached_empty.placeAll_cases allAdmissible_nil program with
    ⟨l, hPlace, hReached, _⟩ | ⟨done, s, after, cause, l, hSplit, _, hRefused, _⟩
  · exact ⟨l, hPlace, hReached⟩
  · rw [List.nil_append] at hSplit
    have hAdmissible := h (done.map Located.statement) s.statement
      (after.map Located.statement) (by simp [hSplit])
    exact absurd hRefused hAdmissible.not_refused

/-- The first pass stops behind what it has reached at a statement that is refused. -/
theorem Layout.Reached.placeAll_of_refused {before : List Located} {l : Layout}
    (h : l.Reached before) (hPlace : Layout.empty.placeAll before = (l, none)) {s : Located}
    {cause : StatementError} (hRefused : Refused (before.map Located.statement) s.statement cause)
    (after : List Located) :
    Layout.empty.placeAll (before ++ s :: after) =
      (l, some (.badStatement s.line s.text cause)) := by
  rw [Layout.placeAll_append hPlace]
  simp only [Layout.placeAll, h.place_of_refused hRefused]

theorem error?_eq_none_iff {program : List Located} {l : Layout} (h : l.Reached program)
    {s : Located} : s.error? l.symbols = none ↔
      ∀ name, s.statement.reference? = some name → Names (program.map Located.statement) name := by
  simp only [Located.error?, Option.bind_eq_none_iff, ← h.resolve_isSome_iff]
  refine forall_congr' fun name => forall_congr' fun _ => ?_
  cases hSome : (l.symbols.resolve name).isSome <;> simp

/-- The result for a program whose statements are all allowed depends on the references. -/
theorem result_of_reached {program : List Located} {l : Layout} (lines : Nat)
    (h : AllAdmissible (program.map Located.statement))
    (hPlace : Layout.empty.placeAll program = (l, none)) (hReached : l.Reached program) :
    match program.findSome? (Located.error? l.symbols) with
    | some e => (assembleStatements lines program).result = .error e
    | none => ∃ o, (assembleStatements lines program).result = .ok o := by
  have hError := snd_resolveAll l.symbols 0 l.code.toList
  rw [hReached.code, findSome?_flatMap_placeholders l.symbols h.exists_admissible] at hError
  rw [← hReached.code] at hError
  rcases hCode : resolveAll l.symbols 0 l.code.toList with ⟨code, error?⟩
  rw [hCode] at hError
  rw [← hError]
  simp only [assembleStatements, hPlace, hCode]
  cases error? with
  | none => exact ⟨_, rfl⟩
  | some e => rfl

/-- A program with a first error does not assemble. -/
theorem result_of_firstError {program : List Located} {e : AssemblyError} (lines : Nat)
    (h : FirstError program e) : (assembleStatements lines program).result = .error e := by
  cases h with
  | @statement before after s cause hSplit hBefore hRefused =>
    obtain ⟨l, hPlace, hReached⟩ := exists_reached hBefore
    rw [hSplit]
    simp only [assembleStatements, hReached.placeAll_of_refused hPlace hRefused]
  | @reference before after s name hAll hSplit hClosed hReference hNothing =>
    obtain ⟨l, hPlace, hReached⟩ := exists_reached hAll
    have hFirst : program.findSome? (Located.error? l.symbols) =
        some (.undefinedSymbol s.line name) := by
      refine List.findSome?_eq_some_iff.mpr ⟨before, s, after, hSplit, ?_, ?_⟩
      · rw [← hReached.resolve_isSome_iff] at hNothing
        simp [Located.error?, hReference, hNothing]
      · exact fun t hMem => (error?_eq_none_iff hReached).mpr (hClosed t hMem)
    have hResult := result_of_reached lines hAll hPlace hReached
    rwa [hFirst] at hResult

/-- A program without an error assembles. -/
theorem exists_result_of_closed {program : List Located} (lines : Nat)
    (hAll : AllAdmissible (program.map Located.statement))
    (hClosed : ClosedIn (program.map Located.statement) program) :
    ∃ o, (assembleStatements lines program).result = .ok o := by
  obtain ⟨l, hPlace, hReached⟩ := exists_reached hAll
  have hNone : program.findSome? (Located.error? l.symbols) = none :=
    List.findSome?_eq_none_iff.mpr fun s hMem =>
      (error?_eq_none_iff hReached).mpr (hClosed s hMem)
  have hResult := result_of_reached lines hAll hPlace hReached
  rwa [hNone] at hResult

/-- A program has a first error, or none. -/
theorem firstError_or_closed (program : List Located) :
    (∃ e, FirstError program e) ∨
      (AllAdmissible (program.map Located.statement) ∧
        ClosedIn (program.map Located.statement) program) := by
  rcases Layout.reached_empty.placeAll_cases allAdmissible_nil program with
    ⟨l, _, hReached, hAll⟩ | ⟨done, s, after, cause, _, hSplit, hDone, hRefused, _⟩
  · rw [List.nil_append] at hReached hAll
    cases hFirst : program.findSome? (Located.error? l.symbols) with
    | none =>
      refine Or.inr ⟨hAll, fun s hMem => ?_⟩
      exact (error?_eq_none_iff hReached).mp (List.findSome?_eq_none_iff.mp hFirst s hMem)
    | some e =>
      obtain ⟨before, s, after, hSplit, hHere, hBefore⟩ := List.findSome?_eq_some_iff.mp hFirst
      obtain ⟨name, hReference, hUnresolved⟩ := Option.bind_eq_some_iff.mp hHere
      have hNothing : ¬Names (program.map Located.statement) name := by
        intro hNames
        rw [if_pos ((hReached.resolve_isSome_iff name).mpr hNames)] at hUnresolved
        cases hUnresolved
      exact Or.inl ⟨_, .reference hAll hSplit
        (fun t hMem => (error?_eq_none_iff hReached).mp (hBefore t hMem)) hReference hNothing⟩
  · exact Or.inl ⟨_, .statement hSplit hDone hRefused⟩

/-- What is reported is the first error. -/
theorem firstError_of_result {program : List Located} {lines : Nat} {e : AssemblyError}
    (h : (assembleStatements lines program).result = .error e) : FirstError program e := by
  rcases firstError_or_closed program with ⟨other, hFirst⟩ | ⟨hAll, hClosed⟩
  · rw [result_of_firstError lines hFirst] at h
    cases h
    exact hFirst
  · obtain ⟨o, hOk⟩ := exists_result_of_closed lines hAll hClosed
    rw [hOk] at h
    cases h

-- ---------------------------------------------------------------------------
-- Source texts
-- ---------------------------------------------------------------------------

end StackProcessor.Assembly
