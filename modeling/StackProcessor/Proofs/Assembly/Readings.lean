import Mathlib.Data.List.Forall2
import StackProcessor.Assembly.Object
import StackProcessor.Proofs.Basic

/-!
# StackProcessor — readings

A source text that is read has one reading for each of its lines (`Line.read`), and its statements
are those of the lines that have one. What the text assembles to is decided by these statements
(`assembleStatements`) and by nothing else: not by how much is told of the work, and by the number
of lines only where the object keeps it.

## Results
- `forall₂_read_of_readSource` : the readings of the lines.
- `exists_line_of_mem` : the line of a statement.
- `result_assemble` : what a text assembles to, by its statements.
-/

namespace StackProcessor.Assembly

theorem forall₂_of_mapM {ε α β : Type} {f : α → Except ε β} {as : List α} {bs : List β}
    (h : as.mapM f = .ok bs) : List.Forall₂ (fun a b => f a = .ok b) as bs := by
  induction as generalizing bs with
  | nil =>
    cases h
    exact .nil
  | cons a rest ih =>
    rw [List.mapM_cons] at h
    obtain ⟨b, hFirst, h⟩ := exists_of_bind_eq_ok h
    obtain ⟨others, hRest, h⟩ := exists_of_bind_eq_ok h
    cases h
    exact .cons hFirst (ih hRest)

/-- What is read of the lines of a text, one after the other. -/
theorem forall₂_read_of_readSource {source : List Char} {located : List Located}
    (h : readSource source = .ok located) :
    ∃ readings, List.Forall₂ (fun l reading => Line.read l = .ok reading) (Line.ofSource source)
      readings ∧ located = readings.filterMap id := by
  obtain ⟨readings, hLines, hLocated⟩ := exists_of_bind_eq_ok h
  cases hLocated
  exact ⟨readings, forall₂_of_mapM hLines, rfl⟩

/-- Every statement stands on a line. -/
theorem exists_line_of_mem {source : List Char} {located : List Located}
    (h : readSource source = .ok located) {s : Located} (hMem : s ∈ located) :
    ∃ l ∈ Line.ofSource source, l.read = .ok (some s) := by
  obtain ⟨readings, hLines, rfl⟩ := forall₂_read_of_readSource h
  obtain ⟨reading, hReading, rfl⟩ := List.mem_filterMap.mp hMem
  obtain ⟨i, hi, hGet⟩ := List.mem_iff_getElem.mp hReading
  have hLine : i < (Line.ofSource source).length := hLines.length_eq ▸ hi
  refine ⟨(Line.ofSource source)[i], List.getElem_mem hLine, ?_⟩
  have hRead := hLines.get hLine hi
  rw [List.get_eq_getElem, List.get_eq_getElem, hGet] at hRead
  exact hRead

/-- What a text assembles to is what its statements assemble to. -/
theorem result_assemble (source : String) (verbose : Bool) :
    (assemble source verbose).result =
      match readSource source.toList with
      | .error position => .error (.badSyntax position)
      | .ok program => (assembleStatements (countLines source.toList) program).result := by
  unfold assemble
  cases hRead : readSource source.toList with
  | error position => simp only [hRead]
  | ok program => cases verbose <;> simp only [hRead] <;> rfl

/-- A text assembles if it is read and its statements assemble. -/
theorem result_assemble_eq_ok_iff {source : String} {verbose : Bool} {o : Object} :
    (assemble source verbose).result = .ok o ↔
      ∃ located, readSource source.toList = .ok located ∧
        (assembleStatements (countLines source.toList) located).result = .ok o := by
  rw [result_assemble]
  constructor
  · intro h
    split at h
    · cases h
    · exact ⟨_, ‹_›, h⟩
  · rintro ⟨located, hRead, h⟩
    rw [hRead]
    exact h

theorem result_verbose (source : String) (verbose : Bool) :
    (assemble source verbose).result = (assemble source false).result := by
  rw [result_assemble, result_assemble]

end StackProcessor.Assembly
