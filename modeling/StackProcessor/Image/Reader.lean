import StackProcessor.Image.Basic
import StackProcessor.Json.Printer
import StackProcessor.Json.Reader

/-!
# StackProcessor — loading an image

`Image.ofText` reads an image from a JSON array: the number of data words, the data, then the
records. The checks are made in this order, all data before the first record, and the first that
fails is the `LoadFault`. In a record they are: its shape (`RawRecord.ofJson?`), its opcode, the
range of its operand (`RawRecord.word`), and whether the opcode takes one.

A record may be an object with the keys of `RawRecord.keys`, of which `arg` may be left out, or an
array of their values in this order. Places in messages are counted from the front of the code, but
for an unknown opcode and a wrong arity the number is the `index` that the record carries.
-/

namespace StackProcessor

/-- Why a text is not an image. -/
inductive LoadFault where
  /-- It is not a JSON array. -/
  | notAnArray
  /-- The array has no element. -/
  | empty
  /-- The first element is not a natural number. -/
  | badLength (found : Json)
  /-- There are fewer elements than data words. -/
  | tooShort (wanted found : Nat)
  /-- A data element is not a word. -/
  | badCell (address : Nat) (found : Json)
  /-- An element of the code is not a record. -/
  | badRecord (position : Nat)
  /-- The operand of a record is not a word. -/
  | argOutOfRange (position : Nat) (arg : Int)
  /-- A record has an opcode that does not exist. -/
  | unknownOpcode (index : Nat) (mnemonic : String)
  /-- A record has an operand and its opcode takes none. -/
  | surplusArg (index : Nat) (opcode : Opcode)
  /-- A record has no operand and its opcode takes one. -/
  | missingArg (index : Nat) (opcode : Opcode)
  deriving Inhabited

namespace LoadFault

/-- Whether the fault is in what a record says and not in the form of the text. -/
def isDecodeFault : LoadFault → Bool
  | unknownOpcode _ _ | surplusArg _ _ | missingArg _ _ => true
  | _ => false

/-- What is wrong with the form of the text, or with a record. -/
def detail : LoadFault → String
  | notAnArray => "expect a JSON array"
  | empty => "empty image"
  | badLength found => "data length must be a natural number, got " ++ found.render
  | tooShort wanted found => s!"data length is {wanted} but the image has only {found} cells"
  | badCell address found => s!"memory cell {address} is not a word: " ++ found.render
  | badRecord position => s!"instruction #{position}"
  | argOutOfRange position arg => s!"instruction #{position}: arg {arg} exceeds word range"
  | unknownOpcode index mnemonic => undecodable index s!"unknown opcode `{mnemonic}`"
  | surplusArg index opcode => undecodable index s!"`{opcode.mnemonic}` takes no an operand"
  | missingArg index opcode => undecodable index s!"`{opcode.mnemonic}` requires an operand"

/-- The fault in words. -/
def message (f : LoadFault) : String :=
  if f.isDecodeFault then f.detail else "malformed machine code: " ++ f.detail

end LoadFault

/-! ## Records -/

/-- A record as it is written, before its contents are checked. -/
structure RawRecord where
  index : Nat
  mnemonic : String
  arg : Option Int
  deriving DecidableEq, Repr, Inhabited

namespace RawRecord

/-- An operand as it is written: an integer of 64 bits, or nothing. -/
def arg? : Json → Option (Option Int)
  | .null => some none
  | .number (.integer n) => if n < 1 <<< 63 then some (some n) else none
  | _ => none

/-- The keys of a record. -/
def keys : List String := ["index", "opcode", "arg"]

/-- The record in a JSON value: an object with these keys, or an array of as many elements. The
operand may be left out. -/
def ofJson? : Json → Option RawRecord
  | .object members => do
    -- keys beside these are not understood
    if members.all fun member => keys.contains member.1 then
      let index ← (← members.lookup "index").natural?
      let mnemonic ← (← members.lookup "opcode").string?
      let arg ← arg? ((members.lookup "arg").getD .null)
      some ⟨index, mnemonic, arg⟩
    else none
  | .array [index, mnemonic] => do
    some ⟨← index.natural?, ← mnemonic.string?, none⟩
  | .array [index, mnemonic, arg] => do
    some ⟨← index.natural?, ← mnemonic.string?, ← arg? arg⟩
  | _ => none

/-- An operand as a word. -/
def word (position : Nat) : Option Int → Except LoadFault (Option Word)
  | none => .ok none
  | some n =>
    match Word.ofInt? n with
    | some w => .ok (some w)
    | none => .error (.argOutOfRange position n)

/-- The instruction that the record at this position stands for. -/
def instruction (position : Nat) (r : RawRecord) : Except LoadFault Instruction :=
  match Opcode.ofMnemonic? r.mnemonic with
  | none => .error (.unknownOpcode r.index r.mnemonic)
  | some opcode => do
    let arg ← word position r.arg
    match opcode.takesOperand, arg with
    | true, none => .error (.missingArg r.index opcode)
    | false, some _ => .error (.surplusArg r.index opcode)
    | _, _ => .ok ⟨r.index, opcode, arg⟩

end RawRecord

/-- The instruction in the JSON value at this position of the code. -/
def Instruction.ofJson (position : Nat) (j : Json) : Except LoadFault Instruction :=
  match RawRecord.ofJson? j with
  | none => .error (.badRecord position)
  | some r => r.instruction position

/-! ## Images -/

/-- The data word in the JSON value at this address. -/
def Word.ofJson (address : Nat) (j : Json) : Except LoadFault Word :=
  match j.integer?.bind Word.ofInt? with
  | some w => .ok w
  | none => .error (.badCell address j)

namespace Image

/-- Reads every element of a list, each with its position, counted from `position`. -/
def readAll {α : Type} (read : Nat → Json → Except LoadFault α) (position : Nat) :
    List Json → Except LoadFault (List α)
  | [] => .ok []
  | j :: rest => do
    let a ← read position j
    let rest ← readAll read (position + 1) rest
    return a :: rest

/-- The image in a JSON array. -/
def ofElements : List Json → Except LoadFault Image
  | [] => .error .empty
  | head :: rest =>
    match head.natural? with
    | none => .error (.badLength head)
    | some length =>
      if rest.length < length then .error (.tooShort length rest.length)
      else do
        let data ← readAll Word.ofJson 0 (rest.take length)
        let code ← readAll Instruction.ofJson 0 (rest.drop length)
        return ⟨data, code⟩

/-- The image that a text stands for. -/
def ofText (text : String) : Except LoadFault Image :=
  match Json.ofText? text.toList with
  | some (.array elements) => ofElements elements
  | _ => .error .notAnArray

end Image

end StackProcessor
