import StackProcessor.Proofs.Assembly.Program
import StackProcessor.Proofs.Image.Lines

/-!
# StackProcessor — what a verbose assembler tells

The first pass tells of every declaration and of every label that it places (`announcements`), at a
time when the tables are not finished and the memory has just been begun. Later statements change
neither the address of a name nor the cells that are there already, so what is told is true of the
object as well: `Object.Announces` relates a statement to a `TraceEvent` whose address and cells are
those of the finished object. The second pass tells of every record. Where one of the passes stops,
what has been told is what there is to tell of the statements before.

## Results
- `Layout.Reached.trace_placeAll` : what the first pass tells.
- `fst_resolveAll` : the records before the first operand that does not resolve.
- `forall₂_announces` : what is told of declarations and labels is true of the object.
- `assemble_verbose_faithful` : all of this for a source text.
-/

namespace StackProcessor.Assembly

-- ---------------------------------------------------------------------------
-- The first pass
-- ---------------------------------------------------------------------------

/-- What is told of a statement behind these statements. -/
def Statement.announcement? (before : List Statement) : Statement → Option TraceEvent
  | declaration kind name value =>
    some (.variable name (Word.wrap (dataEnd before)) (declaration kind name value).cells)
  | label name => some (.label name (Word.wrap (recordCount before)))
  | _ => none

/-- What is told of statements behind others, in their order. -/
def announcementsFrom (before : List Statement) : List Statement → List TraceEvent
  | [] => []
  | s :: rest => (s.announcement? before).toList ++ announcementsFrom (before ++ [s]) rest

/-- What is told of the statements of a program. -/
def announcements (program : List Statement) : List TraceEvent := announcementsFrom [] program

namespace Layout

theorem trace_of_declare {l l' : Layout} {name : String} {cells : List Word}
    (h : l.declare name cells = .ok l') :
    l'.trace.toList = l.trace.toList ++ [.variable name (Word.wrap l.data.size) cells] := by
  unfold declare at h
  split at h
  · cases h
  · split at h
    · cases h
    · rename_i address hAddress
      cases h
      rw [Word.wrap_of_ofInt? hAddress, Array.toList_push]

theorem trace_of_mark {l l' : Layout} {name : String} (h : l.mark name = .ok l') :
    l'.trace.toList = l.trace.toList ++ [.label name (Word.wrap l.code.size)] := by
  unfold mark at h
  split at h
  · cases h
  · split at h
    · cases h
    · rename_i address hAddress
      cases h
      rw [Word.wrap_of_ofInt? hAddress, Array.toList_push]

/-- A statement is told when it is placed. -/
theorem Reached.trace_place {before : List Located} {l l' : Layout} (h : Reached before l)
    {s : Located} (hPlace : l.place s.line s.statement = .ok l') :
    l'.trace.toList = l.trace.toList ++
      (s.statement.announcement? (before.map Located.statement)).toList := by
  rcases s with ⟨line, text, _ | _ | name | ⟨kind, name, value⟩ | ⟨mnemonic, operand⟩⟩
  all_goals cases hPart : l.part <;> simp only [place, hPart] at hPlace
  · cases hPlace
    exact (List.append_nil _).symm
  · cases hPlace
  · cases hPlace
    exact (List.append_nil _).symm
  · cases hPlace
    exact (List.append_nil _).symm
  · cases hPlace
  · rw [trace_of_mark hPlace, h.size_code]
    rfl
  · obtain ⟨cells, hCells, hDeclare⟩ := exists_of_bind_eq_ok hPlace
    have hDeclared : (Statement.declaration kind name value).cells = cells := by
      rw [Statement.cells, hCells]
    rw [trace_of_declare hDeclare, h.size_data, ← hDeclared]
    rfl
  · cases hPlace
  · cases hPlace
  · obtain ⟨records, _, rfl⟩ := exists_of_map_eq_ok hPlace
    exact (List.append_nil _).symm

/-- All statements are told when they are placed. -/
theorem Reached.trace_placeAll {before : List Located} {l l' : Layout} (h : Reached before l)
    {rest : List Located} (hPlace : l.placeAll rest = (l', none)) :
    l'.trace.toList = l.trace.toList ++
      announcementsFrom (before.map Located.statement) (rest.map Located.statement) := by
  induction rest generalizing before l with
  | nil =>
    cases hPlace
    exact (List.append_nil _).symm
  | cons s others ih =>
    rw [placeAll] at hPlace
    split at hPlace
    · rename_i next hNext
      rw [ih (h.append_one hNext) hPlace, h.trace_place hNext, List.map_append, List.append_assoc]
      rfl
    · cases hPlace

end Layout

/-- What the first pass tells of a program whose statements are all allowed. -/
theorem exists_reached_trace {program : List Located}
    (h : AllAdmissible (program.map Located.statement)) :
    ∃ l, Layout.empty.placeAll program = (l, none) ∧ l.Reached program ∧
      l.trace.toList = announcements (program.map Located.statement) := by
  obtain ⟨l, hPlace, hReached⟩ := exists_reached h
  exact ⟨l, hPlace, hReached, Layout.reached_empty.trace_placeAll hPlace⟩

-- ---------------------------------------------------------------------------
-- The second pass
-- ---------------------------------------------------------------------------

/-- The second pass tells of the records before the first operand that does not resolve. -/
theorem fst_resolveAll {symbols : Symbols} {done rest : List Placeholder} {p : Placeholder}
    (hDone : done.findSome? (Placeholder.error? symbols) = none)
    (hHere : (p.error? symbols).isSome = true) (start : Nat) :
    (resolveAll symbols start (done ++ p :: rest)).1 =
      numbered symbols start (done.map fun p => (p.opcode, p.argument)) := by
  induction done generalizing start with
  | nil =>
    rw [List.nil_append, resolveAll]
    rw [Placeholder.error?] at hHere
    split
    · rfl
    · rename_i arg hArg
      rw [hArg] at hHere
      cases hHere
  | cons q others ih =>
    rw [List.findSome?_cons] at hDone
    cases hArg : q.resolve symbols with
    | error e =>
      rw [Placeholder.error?, hArg] at hDone
      cases hDone
    | ok arg =>
      rw [Placeholder.error?, hArg] at hDone
      rw [List.cons_append, resolveAll, hArg]
      simp only [ih hDone, (Placeholder.resolve_eq hArg).1]
      simp [numbered]

-- ---------------------------------------------------------------------------
-- What is told and what there is
-- ---------------------------------------------------------------------------

/-- Whether a verbose assembler tells of the statement. -/
def Statement.isTold : Statement → Bool
  | declaration _ _ _ | label _ => true
  | _ => false

/-- The event is true of the object: it has the address that the tables have, and all the cells
that the memory has there for the declaration. -/
inductive Object.Announces (o : Object) : Statement → TraceEvent → Prop where
  | variable {kind name : String} {value : Literal} {a : Word} {cells : List Word} :
    (Statement.declaration kind name value).declared? = some ⟨name, cells.map Int32.toInt⟩ →
    o.symbols.variableTable.lookup name = some a →
    (o.image.data.drop a.toInt.toNat).take cells.length = cells →
    Announces o (.declaration kind name value) (.variable name a cells)
  | label {name : String} {a : Word} : o.symbols.labelTable.lookup name = some a →
    Announces o (.label name) (.label name a)

namespace Object.ConsistsOf

variable {o : Object} {ss : List Statement} (h : o.ConsistsOf ss)

include h

theorem announces_variable {before after : List Statement} {kind name : String} {value : Literal}
    (hSplit : ss = before ++ .declaration kind name value :: after) :
    o.Announces (.declaration kind name value) (.variable name (Word.wrap (dataEnd before))
      (Statement.declaration kind name value).cells) := by
  obtain ⟨cells, hDeclared⟩ := h.declarable kind name value (by simp [hSplit])
  have hCells : (Statement.declaration kind name value).cells = cells := by
    rw [Statement.cells, hDeclared]
  have hBefore : Declarable before :=
    h.declarable.subset (hSplit ▸ List.subset_append_left before _)
  obtain ⟨a, hLookup, hAddress⟩ := exists_lookup_variable h.variableTable hSplit rfl
  have hFront : a.toInt.toNat =
      (List.replicate Word.portCells 0 ++ before.flatMap Statement.cells).length := by
    rw [List.length_append, List.length_replicate]
    omega
  have hEnd : (dataEnd before : Int) = a.toInt := by
    rw [hAddress, length_cells hBefore]
    exact Int.natCast_add _ _
  rw [hEnd, Word.wrap, Int32.ofInt_toInt, hCells]
  refine .variable (contents_of_declaredCells hDeclared name) hLookup ?_
  rw [h.data, hSplit, List.flatMap_append, List.flatMap_cons, hCells, ← List.append_assoc, hFront,
    List.drop_left, List.take_left]

theorem announces_label {before after : List Statement} {name : String}
    (hSplit : ss = before ++ .label name :: after) :
    o.Announces (.label name) (.label name (Word.wrap (recordCount before))) := by
  obtain ⟨a, hLookup, hAddress⟩ := exists_lookup_label h.labelTable hSplit rfl
  rw [← hAddress, Word.wrap, Int32.ofInt_toInt]
  exact .label hLookup

/-- What is told of declarations and labels is true of the object. -/
theorem forall₂_announces {before rest : List Statement} (hSplit : ss = before ++ rest) :
    List.Forall₂ o.Announces (rest.filter Statement.isTold) (announcementsFrom before rest) := by
  induction rest generalizing before with
  | nil => exact .nil
  | cons s others ih =>
    have hAfter : ss = before ++ [s] ++ others := by rw [hSplit, List.append_cons]
    have hOthers := ih hAfter
    cases s with
    | declaration kind name value => exact .cons (h.announces_variable hSplit) hOthers
    | label name => exact .cons (h.announces_label hSplit) hOthers
    | _ => exact hOthers

end Object.ConsistsOf

-- ---------------------------------------------------------------------------
-- What is told of programs
-- ---------------------------------------------------------------------------

section

variable {located before after : List Located} {s : Located} (lines : Nat)

/-- All is told of a program that assembles. -/
theorem trace_of_result {lines : Nat} {o : Object}
    (h : (assembleStatements lines located).result = .ok o) :
    (assembleStatements lines located).trace =
      announcements (located.map Located.statement) ++ o.image.code.map TraceEvent.record := by
  obtain ⟨layout, code, hPlace, hCode, rfl⟩ := exists_passes h
  simp only [assembleStatements, hPlace, hCode, Layout.reached_empty.trace_placeAll hPlace]
  rfl

/-- What stands before a statement that is not allowed is told. -/
theorem trace_of_refused (hBefore : AllAdmissible (before.map Located.statement))
    {cause : StatementError} (hRefused : Refused (before.map Located.statement) s.statement cause) :
    (assembleStatements lines (before ++ s :: after)).trace =
      announcements (before.map Located.statement) := by
  obtain ⟨l, hPlace, hReached, hTrace⟩ := exists_reached_trace hBefore
  simp only [assembleStatements, hReached.placeAll_of_refused hPlace hRefused, hTrace]

/-- A statement with a reference has one record. -/
theorem exists_placeholders_of_reference {front : List Statement} {name : String}
    (h : Admissible front s.statement) (hReference : s.statement.reference? = some name) :
    ∃ op, s.placeholders = [⟨op, some (.symbol name), s.line⟩] := by
  obtain ⟨line, text, statement⟩ := s
  cases h with
  | instruction _ hInstructs =>
    cases hInstructs with
    | bare => cases hReference
    | integer => cases hReference
    | symbol other hOperand =>
      cases hReference
      obtain ⟨op, _, _, rfl⟩ := mem_operandMnemonics_iff.mp hOperand
      exact ⟨op, by rw [Located.placeholders, records_mnemonic]; rfl⟩
  | _ => cases hReference

theorem map_flatMap_placeholders (ss : List Located) :
    (ss.flatMap Located.placeholders).map (fun p => (p.opcode, p.argument)) =
      (ss.map Located.statement).flatMap Statement.records := by
  rw [List.map_flatMap, List.flatMap_map]
  simp [Located.placeholders, Function.comp_def]

/-- Where a reference is to nothing, all statements are told, and the records before. -/
theorem trace_of_unresolved {name : String}
    (hAll : AllAdmissible ((before ++ s :: after).map Located.statement))
    (hBefore : ClosedIn ((before ++ s :: after).map Located.statement) before)
    (hReference : s.statement.reference? = some name)
    (hNothing : ¬Names ((before ++ s :: after).map Located.statement) name) :
    ∃ symbols : Symbols,
      symbols.variableTable.Lists (variableSites ((before ++ s :: after).map Located.statement)) ∧
      symbols.labelTable.Lists (labelSites ((before ++ s :: after).map Located.statement)) ∧
      (assembleStatements lines (before ++ s :: after)).trace =
        announcements ((before ++ s :: after).map Located.statement) ++
          (numbered symbols 0 ((before.map Located.statement).flatMap Statement.records)).map
            TraceEvent.record := by
  obtain ⟨l, hPlace, hReached, hTrace⟩ := exists_reached_trace hAll
  obtain ⟨front, hAllowed⟩ := hAll.exists_admissible s (by simp)
  obtain ⟨op, hHere⟩ := exists_placeholders_of_reference hAllowed hReference
  have hCode : l.code.toList = before.flatMap Located.placeholders ++
      ⟨op, some (.symbol name), s.line⟩ :: after.flatMap Located.placeholders := by
    rw [hReached.code, List.flatMap_append, List.flatMap_cons, hHere, List.singleton_append]
  have hDone : (before.flatMap Located.placeholders).findSome? (Placeholder.error? l.symbols) =
      none := by
    rw [findSome?_flatMap_placeholders l.symbols
      fun t hMem => hAll.exists_admissible t (List.mem_append_left _ hMem)]
    exact List.findSome?_eq_none_iff.mpr fun t hMem =>
      (error?_eq_none_iff hReached).mpr (hBefore t hMem)
  have hError :
      ((Placeholder.mk op (some (.symbol name)) s.line).error? l.symbols).isSome = true := by
    rw [← hReached.resolve_isSome_iff, Option.not_isSome_iff_eq_none] at hNothing
    simp only [Placeholder.error?, Placeholder.resolve, hNothing, Option.isSome_some]
  have hRecords :=
    @fst_resolveAll _ _ (after.flatMap Located.placeholders) _ hDone hError 0
  rw [← hCode, map_flatMap_placeholders] at hRecords
  refine ⟨l.symbols, hReached.placed.variableTable, hReached.placed.labelTable, ?_⟩
  rw [← hTrace, ← hRecords]
  simp only [assembleStatements, hPlace]
  cases (resolveAll l.symbols 0 l.code.toList).2 <;> rfl

end

-- ---------------------------------------------------------------------------
-- Source texts
-- ---------------------------------------------------------------------------

section

variable {source : String}

theorem trace_assemble_false (source : String) : (assemble source false).trace = [] := by
  unfold assemble
  cases hRead : readSource source.toList <;> simp only [hRead, Bool.false_eq_true, if_false]

theorem trace_assemble {located : List Located} (h : readSource source.toList = .ok located) :
    (assemble source true).trace =
      (assembleStatements (countLines source.toList) located).trace := by
  simp only [assemble, h, if_true]

/-- What is wrong with a text that does not assemble. -/
theorem error_cases {verbose : Bool} {e : AssemblyError}
    (h : (assemble source verbose).result = .error e) :
    (∃ position, readSource source.toList = .error position ∧ e = .badSyntax position) ∨
      ∃ located, readSource source.toList = .ok located ∧ FirstError located e := by
  rw [result_assemble] at h
  cases hRead : readSource source.toList with
  | error position =>
    simp only [hRead] at h
    cases h
    exact Or.inl ⟨position, rfl, rfl⟩
  | ok located =>
    simp only [hRead] at h
    exact Or.inr ⟨located, rfl, firstError_of_result h⟩

end

/-- **Verbose assembling**: a verbose assembler gives the same result, and what it tells is true of
it: first of the declarations and labels in the order of the source, with their final addresses and
cells, and then of the records, with their lines in the text of the image. Where there is an error,
it has told of everything before. -/
theorem assemble_verbose_faithful (source : String) :
    (assemble source true).result = (assemble source false).result ∧
    (assemble source false).trace = [] ∧
    (∀ name a cells, (TraceEvent.variable name a cells).message =
      s!"variable {name} at {a.render}: {Word.renderList cells}") ∧
    (∀ name a, (TraceEvent.label name a).message = s!"label {name} at {a.render}") ∧
    (∀ o, (assemble source true).result = .ok o → ∃ located told,
      readSource source.toList = .ok located ∧
      List.Forall₂ o.Announces ((located.map Located.statement).filter Statement.isTold) told ∧
      (assemble source true).trace = told ++ o.image.code.map TraceEvent.record ∧
      ∀ (i : Nat) (inst : Instruction), o.image.code[i]? = some inst →
        ((LineEnd.cut o.image.render.toList).map Prod.fst)[1 + o.image.data.length + i]? =
          some ([' '] ++ ((TraceEvent.record inst).message.toList ++
            [if i + 1 = o.image.code.length then ']' else ',']))) ∧
    (∀ position, (assemble source true).result = .error (.badSyntax position) →
      (assemble source true).trace = []) ∧
    (∀ line text cause, (assemble source true).result = .error (.badStatement line text cause) →
      ∃ before s after, readSource source.toList = .ok (before ++ s :: after) ∧ s.line = line ∧
        s.text = text ∧ AllAdmissible (before.map Located.statement) ∧
        Refused (before.map Located.statement) s.statement cause ∧
        (assemble source true).trace = announcements (before.map Located.statement)) ∧
    ∀ line name, (assemble source true).result = .error (.undefinedSymbol line name) →
      ∃ before s after, ∃ symbols : Symbols,
        readSource source.toList = .ok (before ++ s :: after) ∧ s.line = line ∧
        s.statement.reference? = some name ∧
        ¬Names ((before ++ s :: after).map Located.statement) name ∧
        ClosedIn ((before ++ s :: after).map Located.statement) before ∧
        symbols.variableTable.Lists
          (variableSites ((before ++ s :: after).map Located.statement)) ∧
        symbols.labelTable.Lists (labelSites ((before ++ s :: after).map Located.statement)) ∧
        (assemble source true).trace =
          announcements ((before ++ s :: after).map Located.statement) ++
            (numbered symbols 0 ((before.map Located.statement).flatMap Statement.records)).map
              TraceEvent.record := by
  refine ⟨result_verbose source true, trace_assemble_false source, fun _ _ _ => rfl,
    fun _ _ => rfl, ?_, ?_, ?_, ?_⟩
  · intro o hResult
    obtain ⟨located, hRead, hOk⟩ := result_assemble_eq_ok_iff.mp hResult
    refine ⟨located, _, hRead, (consistsOf_of_result hOk).forall₂_announces rfl,
      (trace_assemble hRead).trans (trace_of_result hOk), fun i inst hInst => ?_⟩
    exact Image.line_of_record hInst
  · intro position hResult
    rcases error_cases hResult with ⟨_, hRead, _⟩ | ⟨_, _, hFirst⟩
    · simp only [assemble, hRead]
    · cases hFirst
  · intro line text cause hResult
    rcases error_cases hResult with ⟨_, _, hError⟩ | ⟨located, hRead, hFirst⟩
    · cases hError
    · cases hFirst with
      | statement hSplit hBefore hRefused =>
        subst hSplit
        exact ⟨_, _, _, hRead, rfl, rfl, hBefore, hRefused,
          (trace_assemble hRead).trans (trace_of_refused _ hBefore hRefused)⟩
  · intro line name hResult
    rcases error_cases hResult with ⟨_, _, hError⟩ | ⟨located, hRead, hFirst⟩
    · cases hError
    · cases hFirst with
      | reference hAll hSplit hClosed hReference hNothing =>
        subst hSplit
        obtain ⟨symbols, hVariables, hLabels, hTrace⟩ :=
          trace_of_unresolved (countLines source.toList) hAll hClosed hReference hNothing
        exact ⟨_, _, _, symbols, hRead, rfl, hReference, hNothing, hClosed, hVariables, hLabels,
          (trace_assemble hRead).trans hTrace⟩

/-- A label and a variable are told in the order of the source, and a label that is refused is not
told. -/
theorem assemble_verbose_faithful_label :
    (∃ o told, (assemble "num x 7\nsection .code:\na:\npsh x" true).result = .ok o ∧
      List.Forall₂ o.Announces [.declaration "num" "x" (.integer ⟨false, ['7']⟩), .label "a"]
        told ∧
      (assemble "num x 7\nsection .code:\na:\npsh x" true).trace =
        told ++ [.record ⟨0, .push, some 2⟩] ∧
      ((LineEnd.cut o.image.render.toList).map Prod.fst)[4]? =
        some " \x7b\"index\": 0, \"opcode\": \"psh\", \"arg\": 2\x7d]".toList) ∧
    (assemble "section .code:\na:\na:" true).trace = [.label "a" 0] := by
  constructor
  · obtain ⟨-, -, -, -, hOk, -⟩ :=
      assemble_verbose_faithful "num x 7\nsection .code:\na:\npsh x"
    obtain ⟨located, told, hRead, hAnnounces, hTrace, hLines⟩ := hOk _ rfl
    cases hRead
    exact ⟨_, told, rfl, hAnnounces, hTrace, hLines 0 _ rfl⟩
  · obtain ⟨-, -, -, -, -, -, hBad, -⟩ := assemble_verbose_faithful "section .code:\na:\na:"
    obtain ⟨before, s, after, hRead, hLine, -, -, -, hTrace⟩ := hBad 3 "a:" _ rfl
    have hProgram : [⟨1, "section .code:", .codeHeader⟩, ⟨2, "a:", .label "a"⟩,
        ⟨3, "a:", .label "a"⟩] = before ++ s :: after := Except.ok.inj hRead
    rw [hTrace]
    match before, hProgram with
    | [], hProgram => cases hProgram; cases hLine
    | [_], hProgram => cases hProgram; cases hLine
    | [_, _], hProgram => cases hProgram; rfl
    | _ :: _ :: _ :: _, hProgram => exact absurd hProgram (by simp)

end StackProcessor.Assembly
