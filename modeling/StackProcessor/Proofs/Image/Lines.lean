import StackProcessor.Image.Printer
import StackProcessor.Proofs.Assembly.Literals

/-!
# StackProcessor — the lines of an image

`Image.render` gives a line to each element: one for the number of data words, one for each data
word, and then one for each record (`elementLines`). No element has a line end inside, so the record
with the number `i` is found on line `1 + image.data.length + i`, counted from zero.

## Results
- `cuts_elementLines` : the lines of an array that is written with one element a line.
- `Image.line_of_record` : the line of a record.
-/

namespace StackProcessor

open Assembly

-- ---------------------------------------------------------------------------
-- Arrays with one element a line
-- ---------------------------------------------------------------------------

/-- The lines of an array that is written with one element a line. The first of them begins with
`front`, the others with a blank. -/
def elementLines (front : List Char) : List (List Char) → List (List Char)
  | [] => []
  | element :: rest =>
    (front ++ (element ++ [if rest = [] then ']' else ','])) :: elementLines [' '] rest

theorem cuts_elementLines {front : List Char} {elements : List (List Char)}
    (hFront : OnOneLine front) (hSome : elements ≠ [])
    (hElements : ∀ element ∈ elements, OnOneLine element) :
    Cuts (front ++ (",\n ".toList.intercalate elements ++ [']']))
      (elementLines front elements) := by
  induction elements generalizing front with
  | nil => exact absurd rfl hSome
  | cons element rest ih =>
    obtain ⟨hElement, hRest⟩ := List.forall_mem_cons.mp hElements
    cases rest with
    | nil =>
      have hEnd : OnOneLine [']'] := by decide
      rw [List.intercalate_singleton]
      exact .last (hFront.append (hElement.append hEnd))
    | cons next others =>
      have hComma : OnOneLine [','] := by decide
      have hBlank : OnOneLine [' '] := by decide
      have hOthers := ih hBlank (List.cons_ne_nil next others) hRest
      have hText : front ++ (",\n ".toList.intercalate (element :: next :: others) ++ [']']) =
          (front ++ (element ++ [','])) ++
            '\n' :: ([' '] ++ (",\n ".toList.intercalate (next :: others) ++ [']'])) := by
        rw [List.intercalate_cons_cons]
        simp
      rw [hText]
      exact .lineFeed (hFront.append (hElement.append hComma)) hOthers

theorem getElem?_elementLines {front : List Char} {elements : List (List Char)} {i : Nat}
    {element : List Char} (h : elements[i]? = some element) :
    (elementLines front elements)[i]? = some ((if i = 0 then front else [' ']) ++
      (element ++ [if i + 1 = elements.length then ']' else ','])) := by
  induction elements generalizing front i with
  | nil => cases h
  | cons first rest ih =>
    cases i with
    | zero =>
      cases h
      simp [elementLines]
    | succ j =>
      rw [List.getElem?_cons_succ] at h
      rw [elementLines, List.getElem?_cons_succ, ih h, ite_self, if_neg (Nat.succ_ne_zero j)]
      simp only [List.length_cons, Nat.add_right_cancel_iff]

-- ---------------------------------------------------------------------------
-- Images
-- ---------------------------------------------------------------------------

theorem Instruction.onOneLine_render (inst : Instruction) : OnOneLine inst.render.toList := by
  have hIndex := onOneLine_toString inst.index
  have hOpcode : OnOneLine inst.opcode.mnemonic.toList := by cases inst.opcode <;> decide
  have hArg : OnOneLine (renderArg inst.arg).toList := by
    cases inst.arg with
    | none => decide
    | some w => exact IntegerLiteral.onOneLine_ofInt w.toInt
  unfold Instruction.render
  refine onOneLine_append (onOneLine_append (onOneLine_append (onOneLine_append (onOneLine_append
    (onOneLine_append ?_ hIndex) ?_) hOpcode) ?_) hArg) ?_ <;> decide

namespace Image

/-- Each element of an image stands on a line. -/
theorem cuts_render (image : Image) :
    Cuts image.render.toList (elementLines ['['] (image.elements.map String.toList)) := by
  have hText : image.render.toList =
      ['['] ++ (",\n ".toList.intercalate (image.elements.map String.toList) ++ [']']) := by
    rw [render, String.toList_append, String.toList_append, String.toList_intercalate,
      List.append_assoc]
    rfl
  rw [hText]
  refine cuts_elementLines (by decide) (List.cons_ne_nil _ _) ?_
  rw [elements, List.forall_mem_map, List.cons_append, List.forall_mem_cons,
    List.forall_mem_append, List.forall_mem_map, List.forall_mem_map]
  exact ⟨onOneLine_toString _, fun w _ => IntegerLiteral.onOneLine_ofInt w.toInt,
    fun inst _ => inst.onOneLine_render⟩

/-- A record stands on a line of its own, behind those of the number of data words and of the
data. -/
theorem line_of_record {image : Image} {i : Nat} {inst : Instruction}
    (h : image.code[i]? = some inst) :
    ((LineEnd.cut image.render.toList).map Prod.fst)[1 + image.data.length + i]? =
      some ([' '] ++ (inst.render.toList ++
        [if i + 1 = image.code.length then ']' else ','])) := by
  have hFront : (toString image.data.length :: image.data.map Word.render).length =
      1 + image.data.length := by
    rw [List.length_cons, List.length_map, Nat.add_comm]
  have hElement : (image.elements.map String.toList)[1 + image.data.length + i]? =
      some inst.render.toList := by
    rw [elements, List.getElem?_map, ← hFront,
      List.getElem?_append_right (Nat.le_add_right _ _), Nat.add_sub_cancel_left,
      List.getElem?_map, h]
    rfl
  have hLast : 1 + image.data.length + i + 1 = (image.elements.map String.toList).length ↔
      i + 1 = image.code.length := by
    simp only [elements, List.length_map, List.length_cons, List.length_append]
    omega
  rw [← cuts_iff.mp image.cuts_render, getElem?_elementLines hElement, if_neg (by omega)]
  simp only [hLast]

end Image

end StackProcessor
