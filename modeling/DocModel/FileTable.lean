import DocModel.Path

/-!
# File tables

The files that an extraction can look at, as a table of directories and texts. A path is followed
from the root segment by segment. Each segment is looked up in a directory, the last one included: a
path that goes on behind a file, be it only by a slash, leads nowhere, and `..` leads back from a
directory that is there. A path that does not start at the root leads nowhere either, nor does one
that is too long, however it is padded. Filling a table follows paths in the same way, and makes the
directories that are missing on the way.

## Main definitions

* `FileTable`, `FileTable.Entry`: A table, and what it holds.
* `FileTable.addFile?`, `FileTable.addDirectory?`: Filling a table.
* `FileTable.entry?`, `FileTable.isPresent`, `FileTable.isFile`, `FileTable.read?`: Looking at a
  path.
-/

namespace DocModel

/-- Something that a path may lead to. -/
inductive FileTable.Entry where
  | directory
  | file (text : String)
deriving DecidableEq, Inhabited

/-- Directories and files by their names from the root. The root is always there. -/
structure FileTable where
  /-- What was added, latest first. -/
  entries : List (List String × FileTable.Entry) := []
deriving DecidableEq, Inhabited

namespace FileTable

/-- What stands under the given names. -/
def lookup? (t : FileTable) (names : List String) : Option Entry :=
  if names.isEmpty then some .directory else (t.entries.find? (·.1 == names)).map (·.2)

/-- Follows one segment from the place that `names` stand for, read from the end. -/
def follow? (t : FileTable) (names : List String) (segment : List Char) : Option (List String) :=
  if t.lookup? names.reverse = some .directory then
    if Path.isIdle segment then some names
    else if segment = ['.', '.'] then some names.tail
    else
      let next := String.ofList segment :: names
      if (t.lookup? next.reverse).isSome then some next else none
  else none

/-- How many bytes a path may have. -/
def maxPathSize : Nat := 4095

/-- How many bytes a name may have. -/
def maxNameSize : Nat := 255

/-- The segments of a path that starts at the root and is not too long. -/
def segments? (p : Path) : Option (List (List Char)) :=
  if p.text.utf8ByteSize ≤ maxPathSize then
    match p.text.toList with
    | '/' :: cs => some (Path.segments cs)
    | _ => none
  else none

/-- What a path leads to. -/
def entry? (t : FileTable) (p : Path) : Option Entry := do
  let names ← (← segments? p).foldlM t.follow? []
  t.lookup? names.reverse

/-- Whether a path leads anywhere. -/
def isPresent (t : FileTable) (p : Path) : Bool := (t.entry? p).isSome

/-- Whether a path leads to a file. -/
def isFile (t : FileTable) (p : Path) : Bool :=
  match t.entry? p with
  | some (.file _) => true
  | _ => false

/-- The text of the file that a path leads to. -/
def read? (t : FileTable) (p : Path) : Option String :=
  match t.entry? p with
  | some (.file text) => some text
  | _ => none

/-- Puts an entry under the given names, read from the end. -/
def put (t : FileTable) (names : List String) (e : Entry) : FileTable :=
  { entries := (names.reverse, e) :: t.entries }

/-- Whether something can have the given name. -/
def isName (segment : List Char) : Bool :=
  !Path.isIdle segment && segment != ['.', '.'] && !segment.contains '\x00' &&
    (String.ofList segment).utf8ByteSize ≤ maxNameSize

/-- Follows one segment, and makes it a directory where there is nothing. -/
def make? (place : FileTable × List String) (segment : List Char) :
    Option (FileTable × List String) :=
  let (t, names) := place
  match t.follow? names segment with
  | some next => some (t, next)
  | none =>
    if t.lookup? names.reverse = some .directory && isName segment then
      let next := String.ofList segment :: names
      some (t.put next .directory, next)
    else none

/-- Adds the directory that a path leads to, and those on the way. Refuses a path on which there is
    a file. -/
def addDirectory? (t : FileTable) (p : Path) : Option FileTable := do
  let (t, names) ← (← segments? p).foldlM make? (t, [])
  if t.lookup? names.reverse = some .directory then some t else none

/-- Adds the file that a path leads to, and the directories on the way. A file that is there gets
    the new text; a path that ends in a directory is refused. -/
def addFile? (t : FileTable) (p : Path) (text : String) : Option FileTable := do
  let segments ← segments? p
  let name ← segments.getLast?
  let (t, names) ← segments.dropLast.foldlM make? (t, [])
  let next := String.ofList name :: names
  if isName name && t.lookup? names.reverse = some .directory &&
      t.lookup? next.reverse ≠ some .directory then
    some (t.put next (.file text))
  else none

end FileTable

end DocModel
