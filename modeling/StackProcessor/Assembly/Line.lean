/-!
# StackProcessor — lines of a source text

`LineEnd.cut` cuts a source text at its line ends: a line feed, a carriage return with a line feed
after it (`LineEnd.both`), or a carriage return alone. `Line.ofSource` gives every piece its place,
the `Position` of its first character. Positions count line feeds only, so that behind a lone
carriage return (`Line.next`) the columns go on.

## Results
- `LineEnd.join_cut` : `join (cut source) = source`, so no character is lost and none is added.
-/

namespace StackProcessor.Assembly

/-- How a line ends. -/
inductive LineEnd where
  | lineFeed
  | carriageReturn
  | both
  /-- The text ends with the line. -/
  | text
  deriving DecidableEq, Repr, Inhabited

/-- A place in a text, counted from one. -/
structure Position where
  line : Nat
  column : Nat
  deriving DecidableEq, Repr, Inhabited

/-- A line of a text, and where it starts. -/
structure Line where
  start : Position
  chars : List Char
  ending : LineEnd
  deriving DecidableEq, Repr, Inhabited

namespace LineEnd

/-- The characters that end the line. -/
def chars : LineEnd → List Char
  | lineFeed => ['\n']
  | carriageReturn => ['\r']
  | both => ['\r', '\n']
  | text => []

/-- Puts one more character in front of a text that has been cut. A line end begins a new piece, and
a carriage return in front of a line feed goes into the `LineEnd` of that piece. -/
def cons (c : Char) (pieces : List (List Char × LineEnd)) : List (List Char × LineEnd) :=
  if c = '\n' then
    ([], lineFeed) :: pieces
  else if c = '\r' then
    match pieces with
    -- an empty line before a line feed: the two characters end one line
    | ([], lineFeed) :: rest => ([], both) :: rest
    | _ => ([], carriageReturn) :: pieces
  else
    match pieces with
    | (chars, ending) :: rest => (c :: chars, ending) :: rest
    | [] => []

/-- The lines of a text, each with its end. The last one ends with the text, also if nothing stands
on it. -/
def cut (source : List Char) : List (List Char × LineEnd) := source.foldr cons [([], text)]

/-- The text that consists of these lines. -/
def join (pieces : List (List Char × LineEnd)) : List Char :=
  pieces.flatMap fun piece => piece.1 ++ piece.2.chars

theorem cut_ne_nil (source : List Char) : cut source ≠ [] := by
  induction source with
  | nil => simp [cut]
  | cons c rest ih =>
    simp only [cut, List.foldr_cons] at ih ⊢
    generalize List.foldr cons [([], text)] rest = pieces at ih
    unfold cons
    split
    · simp
    · split
      · split <;> simp
      · split
        · simp
        · exact absurd rfl ih

theorem join_cons (c : Char) {pieces : List (List Char × LineEnd)} (h : pieces ≠ []) :
    join (cons c pieces) = c :: join pieces := by
  unfold cons
  split
  · rename_i hc
    simp [join, chars, hc]
  · split
    · rename_i hc
      split <;> simp [join, chars, hc]
    · split
      · simp [join]
      · exact absurd rfl h

theorem join_cut (source : List Char) : join (cut source) = source := by
  induction source with
  | nil => rfl
  | cons c rest ih =>
    have hcut : cut (c :: rest) = cons c (cut rest) := rfl
    rw [hcut, join_cons c (cut_ne_nil rest), ih]

end LineEnd

/-- Where the text goes on after a line. Only line feeds are counted: behind a carriage return alone
the text goes on one column further, on the line with the same number. -/
def Line.next (l : Line) : Position :=
  match l.ending with
  | .lineFeed | .both => ⟨l.start.line + 1, 1⟩
  | .carriageReturn | .text => ⟨l.start.line, l.start.column + l.chars.length + 1⟩

/-- Gives lines their positions. -/
def Line.arrange (start : Position) : List (List Char × LineEnd) → List Line
  | [] => []
  | (chars, ending) :: rest =>
    let line : Line := ⟨start, chars, ending⟩
    line :: arrange line.next rest

/-- The lines of a text with the places at which they start, the first at line 1 and column 1. -/
def Line.ofSource (source : List Char) : List Line := Line.arrange ⟨1, 1⟩ (LineEnd.cut source)

end StackProcessor.Assembly
