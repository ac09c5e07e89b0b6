import DocModel.Json.Fields

/-!
# Source locations

## Main definitions

* `Loc`: A line and a character, both counted from zero, and the file where it is needed.
* `Loc.toJson`, `Loc.ofJson?`: Writing and reading locations.
-/

namespace DocModel

open Json

/-- A place in the sources. -/
structure Loc where
  /-- The line, counted from zero. -/
  line : Nat
  /-- The character in the line, counted from zero. -/
  character : Nat
  /-- The file, relative to the root of its project. -/
  file : Option String := none
deriving DecidableEq, Inhabited

namespace Loc

/-- A location as an object. -/
def toJson (l : Loc) : Json :=
  object (
    always "line" (ofNat l.line) ++
    always "character" (ofNat l.character) ++
    present "file" (l.file.map string))

/-- Reads a location. -/
def ofJson? (j : Json) : Option Loc := do
  let fs ← j.fields?
  let line ← fs.required? "line" word?
  let character ← fs.required? "character" word?
  let file ← fs.optional? "file" text?
  return { line, character, file }

end Loc

end DocModel
