import StackProcessor.Image.Basic

/-!
# StackProcessor — the text of an image

`Image.render` writes an image as a JSON array with one element a line (`Image.elements`): the
number of data words, the data, and for each instruction an object with the keys `index`, `opcode`
and `arg`, the last of which is `null` where there is no operand.
-/

namespace StackProcessor

/-- An operand, or `null`. -/
def renderArg : Option Word → String
  | some w => w.render
  | none => "null"

/-- The record as a JSON object. -/
def Instruction.render (inst : Instruction) : String :=
  "\x7b\"index\": " ++ toString inst.index ++ ", \"opcode\": \"" ++ inst.opcode.mnemonic
    ++ "\", \"arg\": " ++ renderArg inst.arg ++ "\x7d"

/-- The elements of the array, in order. -/
def Image.elements (image : Image) : List String :=
  toString image.data.length :: image.data.map Word.render ++ image.code.map Instruction.render

/-- The image as text. -/
def Image.render (image : Image) : String :=
  "[" ++ ",\n ".intercalate image.elements ++ "]"

end StackProcessor
