/-!
# StackProcessor — files

The tools read and write files through `FileAccess`, which a program carries out on the disk and a
proof on a `Folder`: files in a directory, and nothing else. A path in a folder (`Folder.follow`)
may go through subdirectories that hold files; it does not lead outside.

`FileAccess` is a class of operations without laws: a disk keeps none of them if another program
writes to it at the same time. What a proof says of a tool it says of the instance for
`StateM Folder`, whose laws are theorems about `Folder.read?` and `Folder.write?`. That the disk
behaves as a folder does is assumed of the files that a tool is given: their paths are relative,
they are regular files under the working directory that can be read and written and are no links,
and nobody else changes them while the tool runs.
-/

namespace StackProcessor.Tools

/-- Reading and writing of whole files. No law comes with it; see `Folder` for the files of which
something is proved. -/
class FileAccess (m : Type → Type) where
  /-- The contents of a file, if it can be read. -/
  read : String → m (Option ByteArray)
  /-- Gives a file new contents. Says whether it could be written. -/
  write : String → ByteArray → m Bool

/-- The text in a file, if it can be read and is UTF-8. -/
def readText {m : Type → Type} [Monad m] [FileAccess m] (path : String) : m (Option String) := do
  let bytes ← FileAccess.read path
  return bytes.bind String.fromUTF8?

/-- Gives a file a text as new contents. -/
def writeText {m : Type → Type} [FileAccess m] (path text : String) : m Bool :=
  FileAccess.write path text.toUTF8

/-! ## Paths -/

/-- The name of a file in a path with its extension replaced, or given one. A name that begins with
its only point has no extension. -/
def nameWithExtension (name extension : List Char) : List Char :=
  -- what stands before the last point, read backwards
  let fromPoint := (name.reverse.dropWhile (· != '.')).drop 1
  let stem := if fromPoint.isEmpty then name else fromPoint.reverse
  stem ++ '.' :: extension

/-- A path with the extension of its last name replaced. -/
def withExtension (path extension : String) : String :=
  let reversed := path.toList.reverse
  let name := (reversed.takeWhile (· != '/')).reverse
  let folder := (reversed.dropWhile (· != '/')).reverse
  String.ofList (folder ++ nameWithExtension name extension.toList)

/-! ## Folders -/

/-- The regular files of a directory and its subdirectories, each under the names that lead to it.
There are no devices, pipes and links, no file that may be read and not written, and no absolute
path: `Folder.locate` finds nothing under a path that begins with `/` or leads above the directory,
where a disk might find a file. -/
structure Folder where
  files : List (List String × ByteArray)
  deriving Inhabited

namespace Folder

/-- Whether names lead to a directory. -/
def isDirectory (f : Folder) (names : List String) : Bool :=
  names.isEmpty ||
    f.files.any fun file => names.isPrefixOf file.1 && names.length < file.1.length

/-- Follows names from a directory, the last of which is the name of a file. -/
def follow (f : Folder) (directory : List String) : List String → Option (List String)
  | [] => none
  | [name] => if name = "" ∨ name = "." ∨ name = ".." then none else some (directory ++ [name])
  | name :: rest =>
    if name = "" ∨ name = "." then f.follow directory rest
    else if name = ".." then
      if directory.isEmpty then none else f.follow directory.dropLast rest
    else if f.isDirectory (directory ++ [name]) then f.follow (directory ++ [name]) rest
    else none

/-- The names that lead to the file with this path. -/
def locate (f : Folder) (path : String) : Option (List String) :=
  if path.startsWith "/" then none else f.follow [] (path.splitOn "/")

/-- The contents of the file with this path. -/
def read? (f : Folder) (path : String) : Option ByteArray :=
  (f.locate path).bind fun names => f.files.lookup names

/-- Gives the file with this path new contents. -/
def write? (f : Folder) (path : String) (contents : ByteArray) : Option Folder :=
  match f.locate path with
  | none => none
  | some names =>
    if f.isDirectory names then none
    else some ⟨(names, contents) :: f.files.filter fun file => file.1 != names⟩

/-- A folder with files under simple paths. -/
def ofFiles (files : List (String × ByteArray)) : Folder :=
  ⟨files.map fun (path, contents) => (path.splitOn "/", contents)⟩

end Folder

instance : FileAccess (StateM Folder) where
  read path := do return (← get).read? path
  write path contents := do
    match (← get).write? path contents with
    | some f => set f; return true
    | none => return false

end StackProcessor.Tools
