import StackProcessor.Proofs.Assembly.Locality
import StackProcessor.Proofs.Assembly.Spans

/-!
# StackProcessor — reading a text without cutting it

The rule `main` of the grammar reads a text from its first character to its last, without looking
for lines first: `line ~ (NEWLINE ~ line)*` up to the end of the text, where a `line` is a statement
or nothing, and blanks, tabs and comments are skipped in between. `readProgram` is this rule. It
gives the readers of statements the whole rest of the text, takes a line end where a statement and
the gap behind it are over, and goes on with what follows; it finds the lines of a text only by
taking line ends in the places where they stand. `readSource`, which the assembler runs, cuts the
text at its line ends first and reads each `Line` by itself.

The two are equal (`readProgram_eq`): statements, their places and texts, and the place of the first
error. One line is read from the front of a text as `Line.read` reads it, since `readStatement` and
`skip` keep to the line (`readFrom_line_append`); the text is then taken line by line, by induction
on `Cuts`. So what a text means can be said of its lines (`readProgram_iff_lines`), although no
reader was ever given a line.

## Results
- `skip_skip_eq` : skipping twice skips nothing more, so a gap holds one comment at most.
- `readFrom_line_append` : one line at the front of a text.
- `readProgram_eq` : the text is read as its lines are.
- `readProgram_iff_lines` : the statements of a text are those of its lines.
-/

namespace StackProcessor.Assembly

-- ---------------------------------------------------------------------------
-- Positions
-- ---------------------------------------------------------------------------

/-- The position behind a character. -/
def Position.advance (p : Position) (c : Char) : Position :=
  if c = '\n' then ⟨p.line + 1, 1⟩ else ⟨p.line, p.column + 1⟩

/-- What has been taken of a text where `rest` is left. -/
def taken (cs rest : List Char) : List Char := cs.take (cs.length - rest.length)

/-- The position of the place where `rest` is left of a text that begins at this position. -/
def Position.after (p : Position) (cs rest : List Char) : Position :=
  (taken cs rest).foldl Position.advance p

-- ---------------------------------------------------------------------------
-- The grammar of a text
-- ---------------------------------------------------------------------------

/-- Takes a line end. -/
def readNewline : List Char → Option (List Char)
  | '\n' :: rest => some rest
  | '\r' :: '\n' :: rest => some rest
  | '\r' :: rest => some rest
  | _ => none

/-- Takes a statement if there is one, and nothing otherwise. -/
def readOptional (cs : List Char) : Option Statement × List Char :=
  match readStatement cs with
  | some (statement, rest) => (some statement, rest)
  | none => (none, cs)

theorem length_skip_le (cs : List Char) : (skip cs).length ≤ cs.length := (skip_suffix cs).length_le

theorem length_readOptional_le (cs : List Char) : (readOptional cs).2.length ≤ cs.length := by
  unfold readOptional
  split
  · rename_i hRead
    exact (suffix_of_readStatement hRead).length_le
  · exact Nat.le_refl _

theorem length_lt_of_readNewline {cs next : List Char} (h : readNewline cs = some next) :
    next.length < cs.length := by
  unfold readNewline at h
  split at h
  all_goals cases h
  all_goals
    simp only [List.length_cons]
    omega

/-- Behind a line end there is less of the text than there was before the line. -/
theorem length_lt_of_readOptional {cs next : List Char}
    (h : readNewline (skip (readOptional (skip cs)).2) = some next) : next.length < cs.length :=
  (length_lt_of_readNewline h).trans_le ((length_skip_le _).trans
    ((length_readOptional_le (skip cs)).trans (length_skip_le cs)))

/-- The statement with what messages say of its place: it takes what stands in front of `rest`. -/
def Statement.located (s : Statement) (place : Position) (cs rest : List Char) : Located :=
  ⟨place.line, String.ofList (Text.trim (taken cs rest)), s⟩

/-- The statements of a text that begins at a position, or the place of the first syntax error. -/
def readFrom (start : Position) (cs : List Char) : Except Position (List Located) :=
  let body := skip cs
  let found := readOptional body
  let here := found.1.toList.map fun s => s.located (start.after cs body) body found.2
  let behind := skip found.2
  match _hNext : readNewline behind with
  | some next => do
    let others ← readFrom (start.after cs next) next
    return here ++ others
  -- where no line end stands the text must be over
  | none => if behind.isEmpty then .ok here else .error (start.after cs behind)
termination_by cs.length
decreasing_by exact length_lt_of_readOptional _hNext

/-- The statements of a text. -/
def readProgram (source : List Char) : Except Position (List Located) := readFrom ⟨1, 1⟩ source

/-- The equation of `readFrom`, without the proof that the recursion ends. -/
theorem readFrom_eq (start : Position) (cs : List Char) :
    readFrom start cs =
      let body := skip cs
      let found := readOptional body
      let here := found.1.toList.map fun s => s.located (start.after cs body) body found.2
      let behind := skip found.2
      match readNewline behind with
      | some next => do
        let others ← readFrom (start.after cs next) next
        return here ++ others
      | none => if behind.isEmpty then .ok here else .error (start.after cs behind) := by
  rw [readFrom]
  dsimp only
  split
  all_goals
    rename_i hNext
    rw [hNext]

-- ---------------------------------------------------------------------------
-- Places on a line
-- ---------------------------------------------------------------------------

theorem skip_skip_eq (cs : List Char) : skip (skip cs) = skip cs := by
  have hSplit := List.takeWhile_append_dropWhile (p := fun c => !isLineEnd c) (l := cs)
  have hLine : OnOneLine (cs.takeWhile fun c => !isLineEnd c) := fun c hc => by
    simpa using List.mem_takeWhile_imp hc
  have hEnd : EndsLine (cs.dropWhile fun c => !isLineEnd c) := fun c hc => by
    simpa using head?_dropWhile_eq_false c hc
  rw [← hSplit, skip_line_append hEnd hLine, skip_line_append hEnd (onOneLine_skip hLine),
    skip_skip hLine]

theorem taken_append (cs rest behind : List Char) :
    taken (cs ++ behind) (rest ++ behind) = taken cs rest := by
  have hLength : (cs ++ behind).length - (rest ++ behind).length = cs.length - rest.length := by
    simp only [List.length_append]
    omega
  rw [taken, hLength, List.take_append_of_le_length (Nat.sub_le _ _), taken]

theorem taken_nil (cs : List Char) : taken cs [] = cs := List.take_length

/-- On a line only columns are counted. -/
theorem foldl_advance {cs : List Char} (hLine : OnOneLine cs) (p : Position) :
    cs.foldl Position.advance p = ⟨p.line, p.column + cs.length⟩ := by
  induction cs generalizing p with
  | nil => rfl
  | cons c rest ih =>
    obtain ⟨hc, hRest⟩ := hLine.of_cons
    have hFeed : c ≠ '\n' := by
      rintro rfl
      cases hc
    rw [List.foldl_cons, Position.advance, if_neg hFeed, ih hRest, List.length_cons,
      Nat.add_assoc, Nat.add_comm 1]

section

variable {line : List Char} (hLine : OnOneLine line) (start : Position) (ending : LineEnd)

include hLine

/-- The place where a part of the line is left. -/
theorem after_append (rest behind : List Char) :
    start.after (line ++ behind) (rest ++ behind) =
      Line.position ⟨start, line, ending⟩ rest := by
  have hTaken : OnOneLine (taken line rest) := fun c hc => hLine c (List.mem_of_mem_take hc)
  rw [Position.after, taken_append, foldl_advance hTaken, taken, List.length_take,
    Nat.min_eq_left (Nat.sub_le _ _), Line.position]

/-- The place behind the end of the line. -/
theorem after_ending (hEnding : ending ≠ .text) (rest : List Char) :
    start.after (line ++ (ending.chars ++ rest)) rest = Line.next ⟨start, line, ending⟩ := by
  have hTaken : taken (line ++ (ending.chars ++ rest)) rest = line ++ ending.chars := by
    have hAll := taken_append (line ++ ending.chars) [] rest
    rwa [List.append_assoc, List.nil_append, taken_nil] at hAll
  rw [Position.after, hTaken, List.foldl_append, foldl_advance hLine]
  cases ending with
  | lineFeed => rfl
  | carriageReturn => rfl
  | both => rfl
  | text => exact absurd rfl hEnding

end

-- ---------------------------------------------------------------------------
-- One line of a text
-- ---------------------------------------------------------------------------

/-- No line end is taken where none stands. -/
theorem readNewline_eq_none_iff {cs : List Char} :
    readNewline cs = none ↔ ∀ c ∈ cs.head?, isLineEnd c = false := by
  unfold readNewline
  split
  · exact iff_of_false nofun fun h => absurd (h '\n' rfl) (by decide)
  · exact iff_of_false nofun fun h => absurd (h '\r' rfl) (by decide)
  · exact iff_of_false nofun fun h => absurd (h '\r' rfl) (by decide)
  · rename_i hFeed _ hReturn
    refine iff_of_true rfl fun c hc => ?_
    obtain ⟨rest, rfl⟩ := List.head?_eq_some_iff.mp hc
    rw [← Bool.not_eq_true, isLineEnd_iff]
    rintro (rfl | rfl)
    · exact hFeed rest rfl
    · exact hReturn rest rfl

theorem readNewline_carriageReturn {rest : List Char} (h : rest.head? ≠ some '\n') :
    readNewline ('\r' :: rest) = some rest := by
  unfold readNewline
  split
  · rename_i hFeed
    cases hFeed
  · rename_i hBoth
    cases hBoth
    exact absurd rfl h
  · rename_i hReturn
    cases hReturn
    rfl
  · rename_i hReturn
    exact absurd rfl (hReturn rest)

/-- Where a line is over and no line end stands, the text is over. -/
theorem EndsLine.eq_nil {behind : List Char} (hEnd : EndsLine behind)
    (h : readNewline behind = none) : behind = [] := by
  cases behind with
  | nil => rfl
  | cons c rest =>
    have hc : isLineEnd c = false := readNewline_eq_none_iff.mp h c rfl
    exact absurd ((hEnd c rfl).symm.trans hc) (by decide)

theorem readOptional_append {line behind : List Char} (hLine : OnOneLine line)
    (hEnd : EndsLine behind) :
    readOptional (line ++ behind) = ((readOptional line).1, (readOptional line).2 ++ behind) := by
  unfold readOptional
  rw [keepsToLine_readStatement.append hLine hEnd]
  rcases readStatement line with _ | ⟨statement, rest⟩ <;> rfl

theorem onOneLine_readOptional {line : List Char} (hLine : OnOneLine line) :
    OnOneLine (readOptional line).2 := by
  unfold readOptional
  split
  · rename_i hRead
    exact keepsToLine_readStatement.onOneLine hLine _ hRead
  · exact hLine

/-- The reader of a line. -/
theorem Line.read_eq (l : Line) :
    l.read =
      let body := skip l.chars
      let found := readOptional body
      if (skip found.2).isEmpty then .ok (found.1.map fun s => s.located l.start body found.2)
      else .error (l.position (skip found.2)) := by
  unfold Line.read readOptional
  dsimp only
  rcases readStatement (skip l.chars) with _ | ⟨statement, rest⟩
  · simp only [skip_skip_eq]
    rfl
  · rfl

/-- One line at the front of a text. -/
theorem readFrom_line_append {line behind : List Char} (hLine : OnOneLine line)
    (hEnd : EndsLine behind) (start : Position) (ending : LineEnd) :
    readFrom start (line ++ behind) = do
      let found ← Line.read ⟨start, line, ending⟩
      match readNewline behind with
      | some next => do
        let others ← readFrom (start.after (line ++ behind) next) next
        return found.toList ++ others
      | none => return found.toList := by
  have hBody := onOneLine_skip hLine
  have hRest := onOneLine_readOptional hBody
  rw [readFrom_eq, Line.read_eq]
  dsimp only
  rw [skip_line_append hEnd hLine, readOptional_append hBody hEnd]
  dsimp only
  rw [skip_line_append hEnd hRest, after_append hLine start ending, after_append hLine start ending]
  simp only [Statement.located, taken_append]
  rcases hLeft : skip (readOptional (skip line)).2 with _ | ⟨c, rest⟩
  · rw [List.nil_append]
    rcases hNext : readNewline behind with _ | next
    · rw [hEnd.eq_nil hNext]
      cases (readOptional (skip line)).1 <;> rfl
    · cases (readOptional (skip line)).1 <;> rfl
  · -- something is left on the line, and it is no line end
    have hc : isLineEnd c = false := (hLeft ▸ onOneLine_skip hRest).of_cons.1
    have hNone : readNewline (c :: (rest ++ behind)) = none :=
      readNewline_eq_none_iff.mpr fun d hd => by
        cases hd
        exact hc
    rw [List.cons_append, hNone]
    rfl

-- ---------------------------------------------------------------------------
-- All lines of a text
-- ---------------------------------------------------------------------------

/-- The statements of lines. -/
def Line.readAll (lines : List Line) : Except Position (List Located) := do
  let statements ← lines.mapM Line.read
  return statements.filterMap id

theorem Line.readAll_cons (l : Line) (rest : List Line) :
    Line.readAll (l :: rest) = do
      let found ← l.read
      let others ← Line.readAll rest
      return found.toList ++ others := by
  unfold Line.readAll
  rw [List.mapM_cons]
  rcases l.read with place | found
  · rfl
  · rcases rest.mapM Line.read with place | others
    · rfl
    · cases found <;> rfl

/-- A text that goes on behind a line. -/
theorem readFrom_eq_of_rest {line rest : List Char} (hLine : OnOneLine line) (ending : LineEnd)
    (hEnding : ending ≠ .text) (hEnd : EndsLine (ending.chars ++ rest))
    (hNext : readNewline (ending.chars ++ rest) = some rest)
    (hCut : LineEnd.cut (ending.chars ++ rest) = ([], ending) :: LineEnd.cut rest)
    (hRest : ∀ start, readFrom start rest = Line.readAll (Line.arrange start (LineEnd.cut rest)))
    (start : Position) :
    readFrom start (line ++ (ending.chars ++ rest)) =
      Line.readAll (Line.arrange start (LineEnd.cut (line ++ (ending.chars ++ rest)))) := by
  rw [readFrom_line_append hLine hEnd start ending, LineEnd.cut_append hLine hCut, Line.arrange,
    Line.readAll_cons, hNext]
  simp only [after_ending hLine start ending hEnding, hRest]

/-- A text is read as its lines are. -/
theorem readFrom_eq_readAll {cs : List Char} {lines : List (List Char)} (h : Cuts cs lines) :
    ∀ start, readFrom start cs = Line.readAll (Line.arrange start (LineEnd.cut cs)) := by
  induction h with
  | @last line hLine =>
    intro start
    have hStep := readFrom_line_append hLine endsLine_nil start .text
    have hCut : LineEnd.cut line = [(line, .text)] := by
      have hLast := @LineEnd.cut_append line [] hLine .text [] rfl
      rwa [List.append_nil] at hLast
    rw [List.append_nil] at hStep
    rw [hStep, hCut, Line.arrange, Line.readAll_cons]
    rcases Line.read ⟨start, line, .text⟩ with place | found
    · rfl
    · cases found <;> rfl
  | lineFeed hLine _ ih =>
    exact readFrom_eq_of_rest hLine .lineFeed (by decide) (endsLine_cons rfl _) rfl rfl ih
  | both hLine _ ih =>
    exact readFrom_eq_of_rest hLine .both (by decide) (endsLine_cons rfl _) rfl rfl ih
  | carriageReturn hLine hRest _ ih =>
    exact readFrom_eq_of_rest hLine .carriageReturn (by decide) (endsLine_cons rfl _)
      (readNewline_carriageReturn hRest) (LineEnd.cut_carriageReturn hRest) ih

/-- The text is read as its lines are: cutting it first changes nothing. -/
theorem readProgram_eq (source : List Char) : readProgram source = readSource source := by
  obtain ⟨lines, hLines⟩ := exists_cuts source
  exact readFrom_eq_readAll hLines ⟨1, 1⟩

/-- **The grammar is its line language**: a text is a program if each of its lines holds one
statement or, but for a gap and a comment, nothing; and the program consists of these statements in
the order of the lines. This is said of the reading of the whole text, which cuts no lines; what the
assembler runs gives the same. -/
theorem readProgram_iff_lines (source : List Char) (statements : List Statement) :
    readSource source = readProgram source ∧
      ((∃ located, readProgram source = .ok located ∧
          located.map Located.statement = statements) ↔
        ∃ lines readings, Cuts source lines ∧ List.Forall₂ Reads lines readings ∧
          readings.filterMap id = statements) := by
  refine ⟨(readProgram_eq source).symm, ?_⟩
  rw [readProgram_eq]
  exact readSource_iff_lines source statements

/-- A comment ends with its line, and the next line is read. -/
example : readProgram "num x ; 5\n5".toList = .error ⟨2, 1⟩ := by
  rw [readProgram_eq]
  rfl

/-- A text between quotes does not go over the end of its line. -/
example : readProgram "str s \"a\nb\"".toList = .error ⟨1, 7⟩ := by
  rw [readProgram_eq]
  rfl

end StackProcessor.Assembly
