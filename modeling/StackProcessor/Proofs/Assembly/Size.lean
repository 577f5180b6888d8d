import StackProcessor.Proofs.Assembly.DataLayout
import StackProcessor.Proofs.Assembly.Grammar
import StackProcessor.Proofs.Assembly.OperandShape
import StackProcessor.Proofs.Assembly.Readings
import StackProcessor.Proofs.Image.RoundTrip

/-!
# StackProcessor — how large an image can be

The numbers with which an image is written down have to fit into 64 bits (`Image.Representable`). An
assembled image grows with its source: a line gives two records at most, and a declaration begins at
an address that is a word, so that all cells but those of the last declaration lie below the
greatest word. A source that fits into the memory of a machine has fewer than `2 ^ 63` characters,
which is the hypothesis `hSize`, and then its image can be written and read.

## Results
- `length_readSource_le` : how many statements there are.
- `Object.ConsistsOf.length_data_le` : how many memory cells there are.
- `representable_of_assemble`, `ofText_render_of_assemble` : an assembled image that is written
  reads back.
-/

namespace StackProcessor.Assembly

-- ---------------------------------------------------------------------------
-- Lines
-- ---------------------------------------------------------------------------

theorem length_le_of_cuts {source : List Char} {lines : List (List Char)} (h : Cuts source lines) :
    lines.length ≤ source.length + 1 ∧ ∀ line ∈ lines, line.length ≤ source.length := by
  induction h with
  | last => simp
  | lineFeed _ _ ih | both _ _ ih | carriageReturn _ _ _ ih =>
    obtain ⟨hCount, hLength⟩ := ih
    simp only [List.length_cons, List.length_append, List.forall_mem_cons]
    refine ⟨by omega, by omega, fun line hMem => ?_⟩
    have hLine := hLength line hMem
    omega

/-- There is one statement on a line at most. -/
theorem length_readSource_le {source : List Char} {located : List Located}
    (h : readSource source = .ok located) : located.length ≤ source.length + 1 := by
  obtain ⟨readings, hLines, rfl⟩ := forall₂_read_of_readSource h
  have hCount := (length_le_of_cuts (map_chars_ofSource source)).1
  rw [List.length_map, hLines.length_eq] at hCount
  exact (List.length_filterMap_le id readings).trans hCount

/-- A text is no longer than the line on which it stands. -/
theorem length_text_le_of_hasTokens {line : List Char} {ts : List Token} (h : HasTokens line ts)
    {chars : List Char} (hMem : .text chars ∈ ts) : chars.length ≤ line.length := by
  induction h with
  | none => cases hMem
  | @cons gap cs rest t ts _ hBegins _ ih =>
    rw [List.length_append]
    rcases List.mem_cons.mp hMem with rfl | hLater
    · cases hBegins
      simp only [List.length_append, List.length_cons]
      omega
    · have hShorter : rest.length ≤ cs.length := by
        cases hBegins <;> simp only [List.length_append, List.length_cons] <;> omega
      have hRest := ih hLater
      omega

theorem length_text_le_of_readSource {source : List Char} {located : List Located}
    (h : readSource source = .ok located) {kind name : String} {chars : List Char}
    (hMem : .declaration kind name (.text chars) ∈ located.map Located.statement) :
    chars.length ≤ source.length := by
  obtain ⟨s, hLocated, hStatement⟩ := List.mem_map.mp hMem
  obtain ⟨l, hLine, hRead⟩ := exists_line_of_mem h hLocated
  have hCuts := map_chars_ofSource source
  have hChars : l.chars ∈ (Line.ofSource source).map Line.chars := List.mem_map_of_mem hLine
  have hShort := (length_le_of_cuts hCuts).2 l.chars hChars
  have hReads := (Line.read_iff (onOneLine_of_cuts hCuts l.chars hChars)).mp ⟨_, hRead, rfl⟩
  rw [Option.map_some, hStatement] at hReads
  refine Nat.le_trans ?_ hShort
  cases hReads with
  | header hHeader => cases hHeader
  | tokens _ hTokens hForms =>
    cases hForms
    exact length_text_le_of_hasTokens hTokens (by simp [Literal.token])

-- ---------------------------------------------------------------------------
-- Cells and records
-- ---------------------------------------------------------------------------

/-- A declaration has no more cells than its text has characters and a word can count. -/
theorem length_le_of_declaredCells {kind : String} {value : Literal} {cells : List Word}
    (h : declaredCells kind value = .ok cells) {bound : Nat}
    (hText : ∀ chars, value = .text chars → chars.length ≤ bound) :
    cells.length ≤ 2 ^ 31 + bound := by
  unfold declaredCells at h
  split at h
  · obtain ⟨w, _, rfl⟩ := exists_of_map_eq_ok h
    rw [List.length_singleton]
    omega
  · cases h
    have hShort := hText _ rfl
    simp only [List.length_append, List.length_map, List.length_singleton]
    omega
  · obtain ⟨w, _, hZeros⟩ := exists_of_bind_eq_ok h
    obtain ⟨_, hCells⟩ := cells_of_zeros hZeros
    have hLength := congrArg List.length hCells
    have hWord := Int32.toInt_lt w
    rw [List.length_map, List.length_replicate] at hLength
    omega
  all_goals cases h

theorem recordCount_le (ss : List Statement) : recordCount ss ≤ 2 * ss.length := by
  have hOne : ∀ s : Statement, s.records.length ≤ 2 := by
    intro s
    unfold Statement.records
    repeat' split
    all_goals simp
  induction ss with
  | nil => exact Nat.le_refl 0
  | cons s rest ih =>
    have hHere := hOne s
    have hCons : recordCount (s :: rest) = s.records.length + recordCount rest := by
      simp [recordCount]
    rw [List.length_cons, hCons]
    omega

namespace Object

variable {o : Object} {ss : List Statement}

/-- All cells but those of the last declaration lie below the greatest word. -/
theorem ConsistsOf.length_data_le (h : o.ConsistsOf ss) {bound : Nat}
    (hText : ∀ kind name chars, .declaration kind name (.text chars) ∈ ss → chars.length ≤ bound) :
    o.image.data.length ≤ 2 ^ 31 + (2 ^ 31 + bound) := by
  have hLength : o.image.data.length =
      2 + Declared.extent (ss.filterMap Statement.declared?) := by
    rw [← List.length_map Int32.toInt, h.tiles.memory, List.length_append]
    rfl
  rcases List.eq_nil_or_concat (ss.filterMap Statement.declared?) with hNone | ⟨before, d, hSplit⟩
  · have hZero : Declared.extent [] = 0 := rfl
    rw [hLength, hNone, hZero]
    omega
  · rw [List.concat_eq_append] at hSplit
    obtain ⟨a, _, hAddress⟩ := h.variable_address hSplit
    have hWord := Int32.toInt_lt a
    have hLast : d.contents.length ≤ 2 ^ 31 + bound := by
      have hMem : d ∈ ss.filterMap Statement.declared? := by simp [hSplit]
      obtain ⟨s, hStatement, hDeclared⟩ := List.mem_filterMap.mp hMem
      cases s with
      | declaration kind name value =>
        obtain ⟨cells, hCells⟩ := h.declarable kind name value hStatement
        rw [contents_of_declaredCells hCells] at hDeclared
        cases hDeclared
        rw [List.length_map]
        refine length_le_of_declaredCells hCells fun chars hChars => ?_
        exact hText kind name chars (hChars ▸ hStatement)
      | _ => cases hDeclared
    have hZero : Declared.extent [] = 0 := rfl
    rw [hLength, hSplit, Declared.extent_append, Declared.extent_cons, hZero]
    omega

end Object

/-- The image of a source that fits into the memory of a machine can be written down. -/
theorem representable_of_assemble {source : String} {verbose : Bool} {o : Object}
    (h : (assemble source verbose).result = .ok o) (hSize : source.toList.length < 2 ^ 63) :
    o.image.Representable := by
  obtain ⟨located, hRead, hConsists⟩ := exists_consistsOf h
  refine ⟨?_, ?_⟩
  · have hData := hConsists.length_data_le fun kind name chars hMem =>
      length_text_le_of_readSource hRead hMem
    omega
  · intro inst hMem
    obtain ⟨i, hInst⟩ := List.getElem?_of_mem hMem
    obtain ⟨_, _, _, _, _, _, _, _, _, rfl⟩ := hConsists.exists_instruction hInst
    have hPlace : i < o.image.code.length := (List.getElem?_eq_some_iff.mp hInst).1
    have hRecords := recordCount_le (located.map Located.statement)
    have hStatements := length_readSource_le hRead
    rw [hConsists.length_code] at hPlace
    rw [List.length_map] at hRecords
    show i < 2 ^ 64
    omega

/-- What is written of an assembled image reads back as the image. -/
theorem ofText_render_of_assemble {source : String} {verbose : Bool} {o : Object}
    (h : (assemble source verbose).result = .ok o) (hSize : source.toList.length < 2 ^ 63) :
    Image.ofText o.image.render = .ok o.image := by
  obtain ⟨_, _, hConsists⟩ := exists_consistsOf h
  have hProper : ∀ inst ∈ o.image.code, inst.hasProperArity = true := by
    intro inst hMem
    obtain ⟨i, hInst⟩ := List.getElem?_of_mem hMem
    exact (hConsists.shape hInst).2
  rw [Image.ofText_render (representable_of_assemble h hSize),
    Image.findSome?_arityFault?_eq_none hProper]

end StackProcessor.Assembly
