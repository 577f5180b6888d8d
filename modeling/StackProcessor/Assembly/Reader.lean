import StackProcessor.Assembly.Statement

/-!
# StackProcessor — reading a statement

A `Reader` takes a token from the front of a text and gives the characters that are left. Between
the tokens of a statement `skip` drops blanks, tabs and a comment, which reaches to the end of the
line. Nothing is cut before it is read: what keeps a comment and a quoted text on their line is that
`dropComment` and `readText` look out for `isLineEnd`.

`readStatement` takes the first form that fits the front of the text, in the order of the grammar:
`readHeader` for `.data` and for `.code`, `readLabel`, `readDeclaration`, `readInstruction`. What
follows is not looked at, and a form that fits is not given up for a later one. `readInstruction`
takes the blanks and the comment behind its mnemonic with it even if `readOperand` finds nothing.

## Results
- `isNameStart_iff`, `isNameChar_iff` : a name is a letter of ASCII or an underscore, followed by
  such characters, digits and dots.
- `isGap_iff`, `isLineEnd_iff` : what stands between tokens, and between lines.
-/

namespace StackProcessor.Assembly

/-- Takes something from the front of a text, and gives the rest. -/
abbrev Reader (α : Type) := List Char → Option (α × List Char)

/-! ## Character classes -/

/-- Whether a name may begin with the character. -/
def isNameStart (c : Char) : Bool := c.isAlpha || c == '_'

/-- Whether a name may go on with the character. -/
def isNameChar (c : Char) : Bool := c.isAlphanum || c == '_' || c == '.'

/-- Whether the character separates tokens. -/
def isGap (c : Char) : Bool := c == ' ' || c == '\t'

/-- Whether the character ends a line. -/
def isLineEnd (c : Char) : Bool := c == '\n' || c == '\r'

theorem isNameStart_iff {c : Char} :
    isNameStart c = true ↔ ('A' ≤ c ∧ c ≤ 'Z') ∨ ('a' ≤ c ∧ c ≤ 'z') ∨ c = '_' := by
  have hUpper : c.isUpper = true ↔ 'A' ≤ c ∧ c ≤ 'Z' := decide_eq_true_iff
  have hLower : c.isLower = true ↔ 'a' ≤ c ∧ c ≤ 'z' :=
    Bool.and_eq_true_iff.trans (and_congr decide_eq_true_iff decide_eq_true_iff)
  have hAlpha : c.isAlpha = true ↔ c.isUpper = true ∨ c.isLower = true := Bool.or_eq_true_iff
  rw [isNameStart, Bool.or_eq_true, beq_iff_eq, hAlpha, hUpper, hLower, or_assoc]

theorem isNameChar_iff {c : Char} :
    isNameChar c = true ↔ isNameStart c = true ∨ ('0' ≤ c ∧ c ≤ '9') ∨ c = '.' := by
  have hDigit : c.isDigit = true ↔ '0' ≤ c ∧ c ≤ '9' := by
    simp only [Char.isDigit, Bool.and_eq_true, decide_eq_true_eq]
    exact Iff.rfl
  rw [← hDigit]
  simp only [isNameChar, isNameStart, Char.isAlphanum, Bool.or_eq_true, beq_iff_eq]
  rw [or_assoc, or_or_or_comm]

theorem isGap_iff {c : Char} : isGap c = true ↔ c = ' ' ∨ c = '\t' := by
  rw [isGap, Bool.or_eq_true, beq_iff_eq, beq_iff_eq]

theorem isLineEnd_iff {c : Char} : isLineEnd c = true ↔ c = '\n' ∨ c = '\r' := by
  rw [isLineEnd, Bool.or_eq_true, beq_iff_eq, beq_iff_eq]

/-! ## Tokens -/

/-- Drops a comment. -/
def dropComment (cs : List Char) : List Char :=
  match cs with
  | ';' :: rest => rest.dropWhile fun c => !isLineEnd c
  | _ => cs

/-- Drops blanks and tabs, and a comment after them. -/
def skip (cs : List Char) : List Char := dropComment (cs.dropWhile isGap)

/-- Takes exactly the given characters. -/
def readExactly (token : List Char) : Reader Unit := fun cs =>
  (token.isPrefixOf? cs).map fun rest => ((), rest)

/-- Takes the longest name. -/
def readName : Reader String := fun cs =>
  match cs with
  | c :: rest =>
    if isNameStart c then
      some (String.ofList (c :: rest.takeWhile isNameChar), rest.dropWhile isNameChar)
    else none
  | [] => none

/-- Takes the longest row of digits, which must not run into a name. -/
def readDigits : Reader (List Char) := fun cs =>
  let digits := cs.takeWhile Char.isDigit
  let rest := cs.dropWhile Char.isDigit
  -- `12a` and `1.5` hold no number
  if digits.isEmpty || (rest.head?.any isNameChar) then none else some (digits, rest)

/-- Takes an integer. -/
def readInteger : Reader IntegerLiteral := fun cs =>
  match cs with
  | '-' :: rest => (readDigits rest).map fun (digits, rest) => (⟨true, digits⟩, rest)
  | _ => (readDigits cs).map fun (digits, rest) => (⟨false, digits⟩, rest)

/-- Takes a text between quotes that does not go over the end of the line. -/
def readText : Reader (List Char) := fun cs =>
  match cs with
  | '"' :: rest =>
    let isInside := fun c => !(c == '"' || isLineEnd c)
    match rest.dropWhile isInside with
    | '"' :: rest' => some (rest.takeWhile isInside, rest')
    | _ => none
  | _ => none

/-- Takes an initial value. -/
def readLiteral : Reader Literal := fun cs =>
  match readText cs with
  | some (chars, rest) => some (.text chars, rest)
  | none => (readInteger cs).map fun (n, rest) => (.integer n, rest)

/-- Takes an operand. -/
def readOperand : Reader Operand := fun cs =>
  match readInteger cs with
  | some (n, rest) => some (.integer n, rest)
  | none => (readName cs).map fun (name, rest) => (.symbol name, rest)

/-! ## Statements -/

/-- Takes the header of the section with this name. -/
def readHeader (name : List Char) (statement : Statement) : Reader Statement := fun cs => do
  let ((), rest) ← readExactly "section".toList cs
  let ((), rest) ← readExactly name (skip rest)
  let ((), rest) ← readExactly [':'] (skip rest)
  some (statement, rest)

/-- Takes a label. -/
def readLabel : Reader Statement := fun cs => do
  let (name, rest) ← readName cs
  let ((), rest) ← readExactly [':'] (skip rest)
  some (.label name, rest)

/-- Takes a declaration. -/
def readDeclaration : Reader Statement := fun cs => do
  let (kind, rest) ← readName cs
  let (name, rest) ← readName (skip rest)
  let (value, rest) ← readLiteral (skip rest)
  some (.declaration kind name value, rest)

/-- Takes an instruction. -/
def readInstruction : Reader Statement := fun cs => do
  let (mnemonic, rest) ← readName cs
  match readOperand (skip rest) with
  | some (operand, rest) => some (.instruction mnemonic (some operand), rest)
  -- the operand was looked for behind the gap, and the gap stays taken
  | none => some (.instruction mnemonic none, skip rest)

/-- Takes a statement of the first form that fits. -/
def readStatement : Reader Statement := fun cs =>
  readHeader ".data".toList .dataHeader cs
    <|> readHeader ".code".toList .codeHeader cs
    <|> readLabel cs
    <|> readDeclaration cs
    <|> readInstruction cs

end StackProcessor.Assembly
