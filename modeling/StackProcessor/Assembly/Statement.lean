import StackProcessor.Word

/-!
# StackProcessor — statements of the assembly language

A program is a sequence of `Statement`s, at most one a line: the headers of the two sections,
labels, declarations with an initial `Literal`, and instructions with or without an `Operand`. The
words that name a kind of declaration or an instruction are kept as they stand; which of them there
are is a question for the layout and not for the grammar.

An `IntegerLiteral` is kept as it was written, sign and digits. What number it stands for
(`IntegerLiteral.value`) and whether that is a word is decided where it is used, so that messages
can show its `spelling`.
-/

namespace StackProcessor.Assembly

/-- A decimal number as it stands in the source. -/
structure IntegerLiteral where
  /-- Whether a minus sign stands in front of the digits. -/
  negative : Bool
  digits : List Char
  deriving DecidableEq, Repr, Inhabited

namespace IntegerLiteral

/-- The characters of the literal. -/
def spelling (n : IntegerLiteral) : List Char :=
  if n.negative then '-' :: n.digits else n.digits

/-- The number the literal stands for. -/
def value (n : IntegerLiteral) : Int :=
  let magnitude := Nat.ofDigitChars 10 n.digits 0
  if n.negative then -magnitude else magnitude

end IntegerLiteral

/-- An initial value in a declaration. -/
inductive Literal where
  | integer (n : IntegerLiteral)
  /-- The characters between the quotes. -/
  | text (chars : List Char)
  deriving DecidableEq, Repr, Inhabited

/-- The characters of the literal, with the quotes of a text. -/
def Literal.spelling : Literal → List Char
  | integer n => n.spelling
  | text chars => '"' :: chars ++ ['"']

/-- What follows the mnemonic of an instruction. -/
inductive Operand where
  | integer (n : IntegerLiteral)
  | symbol (name : String)
  deriving DecidableEq, Repr, Inhabited

/-- One statement. -/
inductive Statement where
  | dataHeader
  | codeHeader
  | label (name : String)
  | declaration (kind name : String) (value : Literal)
  | instruction (mnemonic : String) (operand : Option Operand)
  deriving DecidableEq, Repr, Inhabited

end StackProcessor.Assembly
