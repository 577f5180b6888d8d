import Mathlib.Data.List.TakeWhile
import StackProcessor.Assembly.Source

/-!
# StackProcessor — the lines of a text

A text is cut at every line feed, at every carriage return with a line feed behind it, and at every
other carriage return. `Cuts source lines` states this as a relation, with one constructor for each
kind of `LineEnd`, and with `OnOneLine` for every piece: no line has a line end inside. There is one
way to cut a text so, and it is the one that `LineEnd.cut` finds and that the lines of a source text
(`Line.ofSource`) come from.

## Results
- `cuts_iff` : the pieces of a text are its lines.
- `map_chars_ofSource` : the lines of a source text have these pieces for characters.
-/

namespace StackProcessor.Assembly

-- ---------------------------------------------------------------------------
-- Cutting
-- ---------------------------------------------------------------------------

/-- There is no line end among the characters. -/
def OnOneLine (cs : List Char) : Prop := ∀ c ∈ cs, isLineEnd c = false

/-- The text consists of these lines. -/
inductive Cuts : List Char → List (List Char) → Prop where
  | last {line : List Char} : OnOneLine line → Cuts line [line]
  | lineFeed {line rest : List Char} {lines : List (List Char)} :
    OnOneLine line → Cuts rest lines → Cuts (line ++ '\n' :: rest) (line :: lines)
  | both {line rest : List Char} {lines : List (List Char)} :
    OnOneLine line → Cuts rest lines → Cuts (line ++ '\r' :: '\n' :: rest) (line :: lines)
  | carriageReturn {line rest : List Char} {lines : List (List Char)} :
    OnOneLine line → rest.head? ≠ some '\n' → Cuts rest lines →
    Cuts (line ++ '\r' :: rest) (line :: lines)

theorem OnOneLine.of_cons {c : Char} {cs : List Char} (h : OnOneLine (c :: cs)) :
    isLineEnd c = false ∧ OnOneLine cs :=
  List.forall_mem_cons.mp h

theorem OnOneLine.of_append {cs rest : List Char} (h : OnOneLine (cs ++ rest)) : OnOneLine rest :=
  fun c hc => h c (List.mem_append_right cs hc)

theorem onOneLine_of_cuts {source : List Char} {lines : List (List Char)} (h : Cuts source lines) :
    ∀ line ∈ lines, OnOneLine line := by
  induction h with
  | last hLine => exact List.forall_mem_singleton.mpr hLine
  | lineFeed hLine _ ih => exact List.forall_mem_cons.mpr ⟨hLine, ih⟩
  | both hLine _ ih => exact List.forall_mem_cons.mpr ⟨hLine, ih⟩
  | carriageReturn hLine _ _ ih => exact List.forall_mem_cons.mpr ⟨hLine, ih⟩

/-- Every text consists of lines. -/
theorem exists_cuts (source : List Char) : ∃ lines, Cuts source lines := by
  have hLine : OnOneLine (source.takeWhile fun c => !isLineEnd c) := fun c hc => by
    simpa using List.mem_takeWhile_imp hc
  have hSplit := List.takeWhile_append_dropWhile (p := fun c => !isLineEnd c) (l := source)
  rcases hRest : source.dropWhile fun c => !isLineEnd c with _ | ⟨c, rest⟩
  · rw [hRest, List.append_nil] at hSplit
    exact ⟨[source], .last (hSplit ▸ hLine)⟩
  rw [hRest] at hSplit
  have hLess : rest.length < source.length := by
    rw [← hSplit, List.length_append, List.length_cons]
    omega
  have hEnd : isLineEnd c = true := by
    have hHead := List.head?_dropWhile_not (fun c => !isLineEnd c) source
    simpa [hRest] using hHead
  rw [← hSplit]
  rcases isLineEnd_iff.mp hEnd with rfl | rfl
  · obtain ⟨lines, hLines⟩ := exists_cuts rest
    exact ⟨_, .lineFeed hLine hLines⟩
  by_cases hBoth : rest.head? = some '\n'
  · obtain ⟨after, rfl⟩ := List.head?_eq_some_iff.mp hBoth
    have hAfter : after.length < source.length := Nat.lt_of_succ_lt hLess
    obtain ⟨lines, hLines⟩ := exists_cuts after
    exact ⟨_, .both hLine hLines⟩
  · obtain ⟨lines, hLines⟩ := exists_cuts rest
    exact ⟨_, .carriageReturn hLine hBoth hLines⟩
termination_by source.length

-- ---------------------------------------------------------------------------
-- The pieces of a text
-- ---------------------------------------------------------------------------

namespace LineEnd

theorem cut_append {line rest : List Char} (hLine : OnOneLine line) {ending : LineEnd}
    {pieces : List (List Char × LineEnd)} (hRest : cut rest = ([], ending) :: pieces) :
    cut (line ++ rest) = (line, ending) :: pieces := by
  induction line with
  | nil => exact hRest
  | cons c tail ih =>
    obtain ⟨hc, hTail⟩ := hLine.of_cons
    have hFeed : c ≠ '\n' := fun h => by simp [isLineEnd, h] at hc
    have hReturn : c ≠ '\r' := fun h => by simp [isLineEnd, h] at hc
    have hCut : cut (c :: (tail ++ rest)) = cons c (cut (tail ++ rest)) := rfl
    rw [List.cons_append, hCut, ih hTail]
    simp only [cons, if_neg hFeed, if_neg hReturn]

theorem cut_carriageReturn {rest : List Char} (h : rest.head? ≠ some '\n') :
    cut ('\r' :: rest) = ([], carriageReturn) :: cut rest := by
  have hCut : cut ('\r' :: rest) = cons '\r' (cut rest) := rfl
  -- the first piece of the rest is not an empty line before a line feed
  have hFirst : ∀ pieces, cut rest ≠ ([], lineFeed) :: pieces := by
    intro pieces hRest
    cases rest with
    | nil => cases hRest
    | cons c tail =>
      have hTail : cut (c :: tail) = cons c (cut tail) := rfl
      have hc : c ≠ '\n' := by simpa using h
      simp only [hTail, cons, if_neg hc] at hRest
      split at hRest
      · split at hRest <;> cases hRest
      · split at hRest <;> cases hRest
  have hReturn : '\r' ≠ '\n' := by decide
  rw [hCut]
  unfold cons
  rw [if_neg hReturn, if_pos rfl]
  split
  · rename_i hRest
    exact absurd hRest (hFirst _)
  · rfl

end LineEnd

theorem eq_of_cuts {source : List Char} {lines : List (List Char)} (h : Cuts source lines) :
    lines = (LineEnd.cut source).map Prod.fst := by
  induction h with
  | @last line hLine =>
    rw [← List.append_nil line, LineEnd.cut_append hLine rfl, List.append_nil]
    rfl
  | lineFeed hLine _ ih =>
    rw [LineEnd.cut_append hLine rfl, List.map_cons, ih]
    rfl
  | both hLine _ ih =>
    rw [LineEnd.cut_append hLine rfl, List.map_cons, ih]
    rfl
  | carriageReturn hLine hRest _ ih =>
    rw [LineEnd.cut_append hLine (LineEnd.cut_carriageReturn hRest), List.map_cons, ih]

/-- A text consists of the pieces that it is cut into, and of no other lines. -/
theorem cuts_iff {source : List Char} {lines : List (List Char)} :
    Cuts source lines ↔ lines = (LineEnd.cut source).map Prod.fst := by
  constructor
  · exact eq_of_cuts
  · rintro rfl
    obtain ⟨lines, hLines⟩ := exists_cuts source
    exact eq_of_cuts hLines ▸ hLines

theorem map_chars_arrange (start : Position) (pieces : List (List Char × LineEnd)) :
    (Line.arrange start pieces).map Line.chars = pieces.map Prod.fst := by
  induction pieces generalizing start with
  | nil => rfl
  | cons piece rest ih => simp only [Line.arrange, List.map_cons, ih]

/-- The lines of a source text are the lines that the text consists of. -/
theorem map_chars_ofSource (source : List Char) :
    Cuts source ((Line.ofSource source).map Line.chars) :=
  cuts_iff.mpr (map_chars_arrange _ _)

end StackProcessor.Assembly
