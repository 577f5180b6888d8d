import StackProcessor.Word

/-!
# StackProcessor — output as text, text as input

`character?` finds the character that shows an output word, if the word is the code of a printable
Latin-1 character, a tab or a line end; all other words are shown as decimal numbers (`renderWord`),
so that no control code of a program reaches a terminal. `inputQueue` is the text at the input port:
its characters, followed by a NUL that marks its end, or nothing if there is no text.
-/

namespace StackProcessor.Display

/-- Whether a code below 256 is a control code: those below the blank, and `127` to `159`. -/
def isControl (code : Nat) : Bool := code < 32 || (127 ≤ code && code < 160)

/-- Whether a control code is shown as a character all the same: tab, line feed, carriage return. -/
def isLayout (code : Nat) : Bool := code == 9 || code == 10 || code == 13

/-- The character that shows a word, if one does. -/
def character? (w : Word) : Option Char :=
  let code := w.toInt.toNat
  if 0 < w ∧ w < 256 ∧ (isControl code = false ∨ isLayout code = true) then some (Char.ofNat code)
  else none

/-- A word as a character or as a decimal number. -/
def renderWord (w : Word) : String :=
  match character? w with
  | some c => String.singleton c
  | none => w.render

/-- The output as one text. -/
def renderOutput (output : List Word) : String := String.join (output.map renderWord)

/-- The characters at the input port: none without a text, otherwise the text and a NUL. -/
def inputQueue : Option String → List Char
  | none => []
  | some text => text.toList ++ ['\x00']

end StackProcessor.Display
