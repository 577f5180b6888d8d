import StackProcessor.Assembly.Line
import StackProcessor.Assembly.Reader
import StackProcessor.Text.Blank

/-!
# StackProcessor — reading a source text

`readSource` cuts the text into lines (`Line.ofSource`) and reads each of them with `Line.read`: at
most one statement, with nothing but a gap and a comment around it. The first line for which that is
not so is a syntax error, at the place where the line should have ended.

A `Located` statement keeps what messages show of it: the number of the line, which counts line
feeds, and the characters that `readStatement` took, without blanks around them (`Text.trim`).

The grammar reads a text from front to back and cuts nothing. That the two ways give the same for
every text is `readProgram_eq`, among the proofs on the assembler.
-/

namespace StackProcessor.Assembly

/-- A statement with what messages say of its place. -/
structure Located where
  line : Nat
  /-- The characters that were read for the statement. -/
  text : String
  statement : Statement
  deriving DecidableEq, Repr, Inhabited

/-- The position of the place where `rest` is left of the line. -/
def Line.position (l : Line) (rest : List Char) : Position :=
  ⟨l.start.line, l.start.column + (l.chars.length - rest.length)⟩

/-- The statement on a line, if there is one. -/
def Line.read (l : Line) : Except Position (Option Located) :=
  let body := skip l.chars
  match readStatement body with
  -- nothing but a gap, or something that no statement begins with
  | none => if body.isEmpty then .ok none else .error (l.position body)
  | some (statement, rest) =>
    if (skip rest).isEmpty then
      let text := Text.trim (body.take (body.length - rest.length))
      .ok (some ⟨l.start.line, String.ofList text, statement⟩)
    else .error (l.position (skip rest))

/-- The statements of a text, or the place of the first syntax error. -/
def readSource (source : List Char) : Except Position (List Located) := do
  let statements ← (Line.ofSource source).mapM Line.read
  return statements.filterMap id

end StackProcessor.Assembly
