/-!
# StackProcessor — machine words

A `Word` is a signed 32-bit integer, `Int32`. Memory cells, stack cells, literals and addresses are
all words. `Word.wrap` brings an integer into the word range by reducing it modulo `2 ^ 32`, and
`Word.ofInt?` keeps a number only when it is a word already. The arithmetic unit computes with 64
bits (`AluOp.result`), and only the reduction of its result goes through `Int` and `Word.wrap`.

Two addresses have a meaning of their own, `Word.inputPort` and `Word.outputPort`, and so the first
`Word.portCells` cells of a memory are reserved.
-/

namespace StackProcessor

/-- A machine word: an integer from `-2 ^ 31` to `2 ^ 31 - 1`. -/
abbrev Word := Int32

namespace Word

/-- The least word. -/
def least : Int := -2147483648

/-- The greatest word. -/
def greatest : Int := 2147483647

/-- The word congruent to `v` modulo `2 ^ 32`. -/
def wrap (v : Int) : Word := Int32.ofInt v

/-- `v` as a word, if it lies in the word range. -/
def ofInt? (v : Int) : Option Word :=
  if least ≤ v ∧ v ≤ greatest then some (wrap v) else none

/-- The code point of a character, as a word. -/
def ofChar (c : Char) : Word := wrap c.toNat

/-- Decimal digits, after a minus sign when the word is negative. -/
def render (w : Word) : String := toString w.toInt

/-- Words between brackets. -/
def renderList (ws : List Word) : String := "[" ++ ", ".intercalate (ws.map render) ++ "]"

/-! ## Addresses with a meaning of their own -/

/-- Reading this address takes a character from the input queue. -/
def inputPort : Word := 0

/-- Writing this address appends to the output. -/
def outputPort : Word := 1

/-- Number of cells reserved for the ports, and so the address of the first variable. -/
def portCells : Nat := 2

end Word

end StackProcessor
