import StackProcessor.Proofs.Assembly.Formatting

/-!
# StackProcessor — texts that are written line by line

A text may be given by its lines, with a line feed behind each but the last
(`"\n".intercalate lines`). If every one of them is `OnOneLine`, the lines of the text are these
lines, and what the text assembles to can be told from what each of them `Reads`. A line that begins
with a word other than that of the headers holds the statement of its tokens; for a given line,
`reads_of_read` leaves that to the reader.

## Results
- `map_fst_cut_intercalate` : the lines of a text that is written line by line.
- `result_intercalate` : what such a text assembles to.
- `holds_append_iff` : what rows of lines hold, one behind the other.
- `reads_of_read` : what a line holds that is read.
- `reads_of_tokens` : what a line holds whose first word is no header.
-/

namespace StackProcessor.Assembly

-- ---------------------------------------------------------------------------
-- Lines with line feeds between them
-- ---------------------------------------------------------------------------

/-- A text of lines with line feeds between them consists of these lines. -/
theorem cuts_intercalate {lines : List (List Char)} (hSome : lines ≠ [])
    (hLines : ∀ line ∈ lines, OnOneLine line) : Cuts (['\n'].intercalate lines) lines := by
  induction lines with
  | nil => exact absurd rfl hSome
  | cons line rest ih =>
    obtain ⟨hLine, hRest⟩ := List.forall_mem_cons.mp hLines
    cases rest with
    | nil =>
      rw [List.intercalate_singleton]
      exact .last hLine
    | cons next others =>
      rw [List.intercalate_cons_cons, List.append_assoc]
      exact .lineFeed hLine (ih (List.cons_ne_nil next others) hRest)

theorem onOneLine_append {front behind : String} (hFront : OnOneLine front.toList)
    (hBehind : OnOneLine behind.toList) : OnOneLine (front ++ behind).toList := by
  rw [String.toList_append]
  exact hFront.append hBehind

/-- The lines of a text that is written line by line. -/
theorem map_fst_cut_intercalate {lines : List String} (hSome : lines ≠ [])
    (hLines : ∀ line ∈ lines, OnOneLine line.toList) :
    (LineEnd.cut ("\n".intercalate lines).toList).map Prod.fst = lines.map String.toList := by
  rw [String.toList_intercalate]
  refine (cuts_iff.mp (cuts_intercalate ?_ ?_)).symm
  · simpa using hSome
  · simpa using hLines

/-- What a text that is written line by line assembles to. -/
theorem result_intercalate (lines : List String) (verbose : Bool) :
    (assemble ("\n".intercalate lines) verbose).result =
      let chars := ['\n'].intercalate (lines.map String.toList)
      match readSource chars with
      | .error position => .error (.badSyntax position)
      | .ok program => (assembleStatements (countLines chars) program).result := by
  rw [result_assemble, String.toList_intercalate]
  rfl

-- ---------------------------------------------------------------------------
-- Rows of lines
-- ---------------------------------------------------------------------------

theorem Holds.eq_nil {program : List Statement} (h : Holds [] program) : program = [] := by
  obtain ⟨_, hReadings, rfl⟩ := h
  cases hReadings
  rfl

/-- What rows of lines hold, one behind the other. -/
theorem holds_append_iff {before after : List (List Char)} {program : List Statement} :
    Holds (before ++ after) program ↔
      ∃ first second, Holds before first ∧ Holds after second ∧ program = first ++ second := by
  induction before generalizing program with
  | nil =>
    constructor
    · intro h
      exact ⟨[], program, holds_nil, h, rfl⟩
    · rintro ⟨first, second, hFirst, hSecond, rfl⟩
      rwa [hFirst.eq_nil]
  | cons line rest ih =>
    simp only [List.cons_append, holds_cons_iff, ih]
    constructor
    · rintro ⟨reading, _, hReads, ⟨first, second, hFirst, hSecond, rfl⟩, rfl⟩
      exact ⟨_, second, ⟨reading, first, hReads, hFirst, rfl⟩, hSecond,
        (List.append_assoc _ _ _).symm⟩
    · rintro ⟨_, second, ⟨reading, first, hReads, hFirst, rfl⟩, hSecond, rfl⟩
      exact ⟨reading, _, hReads, ⟨first, second, hFirst, hSecond, rfl⟩, List.append_assoc _ _ _⟩

-- ---------------------------------------------------------------------------
-- Single lines
-- ---------------------------------------------------------------------------

/-- A line holds what is read of it, wherever it stands. -/
theorem reads_of_read {line : List Char} (hLine : OnOneLine line) {reading : Option Statement}
    (h : (Line.read ⟨⟨1, 1⟩, line, .text⟩).map (Option.map Located.statement) = .ok reading) :
    Reads line reading :=
  (Line.read_iff (l := ⟨⟨1, 1⟩, line, .text⟩) hLine).mp (exists_of_map_eq_ok h)

theorem reads_dataHeader : Reads "section .data:".toList (some .dataHeader) :=
  reads_of_read (by decide) rfl

theorem reads_codeHeader : Reads "section .code:".toList (some .codeHeader) :=
  reads_of_read (by decide) rfl

/-- A name goes as far as it can. -/
theorem Token.Begins.takeWhile_eq {name : String} {cs rest : List Char}
    (h : (Token.name name).Begins cs rest) : cs.takeWhile isNameChar = name.toList := by
  cases h with
  | @name c cs _ hFirst hChars hStops =>
    have hAll : ∀ d ∈ c :: cs, isNameChar d = true :=
      List.forall_mem_cons.mpr ⟨isNameChar_of_isNameStart hFirst, hChars⟩
    rw [takeWhile_append_of_stop hAll hStops, String.toList_ofList]

/-- The first word of a line with a header begins like one. -/
theorem isPrefix_of_isHeader {line : List Char} (hLine : OnOneLine line) {first : String}
    {ts : List Token} (hTokens : HasTokens line (.name first :: ts)) {header : Statement}
    (hHeader : IsHeader line header) : "section".toList <+: first.toList := by
  have hWord {name rest : List Char} (hName : IsSectionName name) (h : Heads name line rest) :
      "section".toList <+: first.toList := by
    obtain ⟨after, _, hSection, _⟩ := (heads_iff hLine hName).mp h
    obtain ⟨rest, _, hFirst, _⟩ := hTokens.exists_rest hLine
    rw [hSection] at hFirst
    rw [← hFirst.takeWhile_eq, List.takeWhile_append_of_pos (List.all_eq_true.mp rfl)]
    exact List.prefix_append _ _
  cases hHeader with
  | data hHeads => exact hWord isSectionName_data hHeads
  | code hHeads => exact hWord isSectionName_code hHeads

/-- A line whose first word is no header holds the statement of its tokens. -/
theorem reads_of_tokens {line : List Char} (hLine : OnOneLine line) {first : String}
    {ts : List Token} {statement : Statement} (hTokens : HasTokens line (.name first :: ts))
    (hForms : Forms (.name first :: ts) statement) (hFirst : ¬"section".toList <+: first.toList) :
    Reads line (some statement) :=
  .tokens (fun _ hHeader => hFirst (isPrefix_of_isHeader hLine hTokens hHeader)) hTokens hForms

end StackProcessor.Assembly
