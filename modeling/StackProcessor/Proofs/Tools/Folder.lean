import Mathlib.Data.String.Basic
import StackProcessor.Tools.Files

/-!
# StackProcessor — reading and writing in a folder

A file that is written is a file that is read: with the contents that were written, and with no
effect on any other file. Two paths lead to one file if `Folder.locate` says so, whatever they look
like. Writing does not change which paths lead to which files either, since a path that leads to a
file goes through directories only, and these are there before.

## Results
- `Folder.exists_directory_of_locate` : a path leads to a place in a directory.
- `Folder.locate_write?` : paths lead where they led before.
- `Folder.read?_write?_self`, `Folder.read?_write?_of_ne` : what is read after a file was written.
- `fromUTF8?_toUTF8`, `length_le_of_fromUTF8?` : texts in files.
-/

namespace StackProcessor.Tools

-- ---------------------------------------------------------------------------
-- Texts
-- ---------------------------------------------------------------------------

/-- What is written as a text is read as the text. -/
theorem fromUTF8?_toUTF8 (s : String) : String.fromUTF8? s.toUTF8 = some s := by
  have hValid : s.toByteArray.IsValidUTF8 := s.isValidUTF8
  show (if h : s.toByteArray.IsValidUTF8 then some (String.fromUTF8 s.toByteArray h) else none) = _
  rw [dif_pos hValid, String.fromUTF8]

theorem length_le_utf8Len (cs : List Char) : cs.length ≤ String.utf8Len cs := by
  induction cs with
  | nil => exact Nat.le_refl 0
  | cons c rest ih =>
    have hPositive := c.utf8Size_pos
    rw [List.length_cons, String.utf8Len_cons]
    omega

/-- A text has no more characters than bytes. -/
theorem length_le_of_fromUTF8? {bytes : ByteArray} {s : String}
    (h : String.fromUTF8? bytes = some s) : s.toList.length ≤ bytes.size := by
  have hBytes : s.utf8ByteSize = bytes.size := by
    unfold String.fromUTF8? at h
    split at h
    · cases h
      rfl
    · cases h
  rw [← hBytes, ← String.ofList_toList (s := s), String.utf8ByteSize_ofList, String.toList_ofList]
  exact length_le_utf8Len s.toList

namespace Folder

variable {f f' : Folder}

/-- Files that are left out do not hide another one. -/
theorem lookup_filter_ne {names place : List String} (h : place ≠ names)
    (files : List (List String × ByteArray)) :
    (files.filter fun file => file.1 != names).lookup place = files.lookup place := by
  induction files with
  | nil => rfl
  | cons file rest ih =>
    obtain ⟨other, contents⟩ := file
    by_cases hOut : other = names
    · subst hOut
      have hSkipped : (place == other) = false := beq_eq_false_iff_ne.mpr h
      rw [List.filter_cons_of_neg (by simp), ih, List.lookup_cons, hSkipped]
    · rw [List.filter_cons_of_pos (by simpa using hOut), List.lookup_cons, List.lookup_cons, ih]

-- ---------------------------------------------------------------------------
-- Directories
-- ---------------------------------------------------------------------------

theorem isDirectory_iff {names : List String} :
    f.isDirectory names = true ↔
      names = [] ∨ ∃ file ∈ f.files, names <+: file.1 ∧ names.length < file.1.length := by
  simp [isDirectory]

theorem isDirectory_of_above {names longer : List String} (hPrefix : names <+: longer)
    (h : f.isDirectory longer = true) : f.isDirectory names = true := by
  rw [isDirectory_iff] at h ⊢
  rcases h with rfl | ⟨file, hMem, hInside, hLess⟩
  · exact Or.inl (List.prefix_nil.mp hPrefix)
  · exact Or.inr ⟨file, hMem, hPrefix.trans hInside, Nat.lt_of_le_of_lt hPrefix.length_le hLess⟩

theorem follow_cons_cons (directory : List String) (name next : String) (rest : List String) :
    f.follow directory (name :: next :: rest) =
      if name = "" ∨ name = "." then f.follow directory (next :: rest)
      else if name = ".." then
        if directory.isEmpty then none else f.follow directory.dropLast (next :: rest)
      else if f.isDirectory (directory ++ [name]) then
        f.follow (directory ++ [name]) (next :: rest)
      else none := by
  rw [follow]
  nofun

/-- Names that can be followed from a directory lead to a place in a directory. -/
theorem exists_directory_of_follow {directory path names : List String}
    (hDirectory : f.isDirectory directory = true) (h : f.follow directory path = some names) :
    ∃ parent name, names = parent ++ [name] ∧ f.isDirectory parent = true := by
  induction path generalizing directory with
  | nil => cases h
  | cons name rest ih =>
    cases rest with
    | nil =>
      rw [follow] at h
      split at h
      · cases h
      · cases h
        exact ⟨directory, name, rfl, hDirectory⟩
    | cons next rest =>
      rw [follow_cons_cons] at h
      split at h
      · exact ih hDirectory h
      · split at h
        · split at h
          · cases h
          · exact ih (isDirectory_of_above (List.dropLast_prefix directory) hDirectory) h
        · split at h
          · exact ih ‹_› h
          · cases h

/-- A path leads to a place in a directory. -/
theorem exists_directory_of_locate {path : String} {names : List String}
    (h : f.locate path = some names) :
    ∃ parent name, names = parent ++ [name] ∧ f.isDirectory parent = true := by
  unfold locate at h
  split at h
  · cases h
  · exact exists_directory_of_follow rfl h

/-- In folders with the same directories the same names are followed to the same place. -/
theorem follow_congr (hSame : ∀ names, f'.isDirectory names = f.isDirectory names)
    (directory path : List String) : f'.follow directory path = f.follow directory path := by
  induction path generalizing directory with
  | nil => rfl
  | cons name rest ih =>
    cases rest with
    | nil => rfl
    | cons next rest => rw [follow_cons_cons, follow_cons_cons, hSame, ih, ih, ih]

-- ---------------------------------------------------------------------------
-- Writing
-- ---------------------------------------------------------------------------

section

variable {path : String} {contents : ByteArray}

theorem exists_of_write? (h : f.write? path contents = some f') :
    ∃ names, f.locate path = some names ∧
      f' = ⟨(names, contents) :: f.files.filter fun file => file.1 != names⟩ := by
  unfold write? at h
  split at h
  · cases h
  · split at h
    · cases h
    · cases h
      exact ⟨_, ‹_›, rfl⟩

/-- Writing a file makes no directory and takes none away. -/
theorem isDirectory_write? (h : f.write? path contents = some f') (names : List String) :
    f'.isDirectory names = f.isDirectory names := by
  obtain ⟨place, hPlace, rfl⟩ := exists_of_write? h
  obtain ⟨parent, name, rfl, hParent⟩ := exists_directory_of_locate hPlace
  rw [Bool.eq_iff_iff]
  constructor
  · intro hDirectory
    rcases isDirectory_iff.mp hDirectory with rfl | ⟨file, hMem, hInside, hLess⟩
    · rfl
    · rcases List.mem_cons.mp hMem with rfl | hOld
      · -- a directory above the file is the one that it is in, or above that
        refine isDirectory_of_above ?_ hParent
        rcases List.prefix_concat_iff.mp hInside with rfl | hAbove
        · exact absurd hLess (Nat.lt_irrefl _)
        · exact hAbove
      · exact isDirectory_iff.mpr (Or.inr ⟨file, (List.mem_filter.mp hOld).1, hInside, hLess⟩)
  · intro hDirectory
    rcases isDirectory_iff.mp hDirectory with rfl | ⟨file, hMem, hInside, hLess⟩
    · rfl
    · refine isDirectory_iff.mpr (Or.inr ?_)
      by_cases hSame : file.1 = parent ++ [name]
      · rw [hSame] at hInside hLess
        exact ⟨_, List.mem_cons_self, hInside, hLess⟩
      · refine ⟨file, List.mem_cons_of_mem _ (List.mem_filter.mpr ⟨hMem, ?_⟩), hInside, hLess⟩
        exact bne_iff_ne.mpr hSame

/-- Paths lead where they led before. -/
theorem locate_write? (h : f.write? path contents = some f') (other : String) :
    f'.locate other = f.locate other := by
  unfold locate
  rw [follow_congr (isDirectory_write? h)]

/-- What is read is what was written. -/
theorem read?_write?_self (h : f.write? path contents = some f') :
    f'.read? path = some contents := by
  rw [read?, locate_write? h]
  obtain ⟨names, hPlace, rfl⟩ := exists_of_write? h
  rw [hPlace]
  exact List.lookup_cons_self

/-- Other files are left alone. -/
theorem read?_write?_of_ne (h : f.write? path contents = some f') {other : String}
    (hOther : f.locate other ≠ f.locate path) : f'.read? other = f.read? other := by
  rw [read?, read?, locate_write? h]
  obtain ⟨names, hPlace, rfl⟩ := exists_of_write? h
  rw [hPlace] at hOther
  cases hFound : f.locate other with
  | none => rfl
  | some place =>
    have hNe : place ≠ names := fun hSame => hOther (by rw [hFound, hSame])
    show List.lookup place ((names, contents) :: _) = f.files.lookup place
    rw [List.lookup_cons, beq_eq_false_iff_ne.mpr hNe]
    exact lookup_filter_ne hNe f.files

end

end Folder

end StackProcessor.Tools
