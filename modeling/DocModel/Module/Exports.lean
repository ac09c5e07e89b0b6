import DocModel.Reference.Json

/-!
# Exports of a file

What a source file makes known to others: names that are declared in its own module or outside the
project, and names that it passes on from other files, grouped by the file they come from.

## Main definitions

* `ExportedReference`: A reference, and the name it is exported under where that differs.
* `ReExport`: What is passed on from one file.
* `FileExports`: All exports of a file.
-/

namespace DocModel

open Json

/-- A reference that is exported, with the name it is exported under where that differs. -/
structure ExportedReference where
  reference : Reference
  renamed : Option String
deriving DecidableEq, Inhabited

namespace ExportedReference

/-- The name under which the reference is exported. -/
def exportedName (e : ExportedReference) : String := e.renamed.getD e.reference.name

/-- An exported reference as an object. -/
def toJson (e : ExportedReference) : Json :=
  object (always "reference" e.reference.toJson ++ present "alias" (e.renamed.map string))

/-- Reads an exported reference. -/
def ofJson? (j : Json) : Option ExportedReference := do
  let fs ← j.fields?
  let reference ← fs.required? "reference" (Reference.ofJson? .strict)
  let renamed ← fs.optional? "alias" text?
  return { reference, renamed }

end ExportedReference

/-- Names that are passed on from one file. -/
structure ReExport where
  /-- The module of the file, by its names from the root. -/
  module : List String
  /-- The file, relative to the root of its project. -/
  file : String
  /-- The name that stands for the whole file. -/
  spaceName : Option String := none
  /-- Whether the file belongs to the module that passes its names on. -/
  sameModule : Bool := false
  /-- Whether every name of the file is passed on. -/
  wildcard : Bool := false
  references : List ExportedReference := []
deriving DecidableEq, Inhabited

namespace ReExport

/-- A re-export as an object. -/
def toJson (r : ReExport) : Json :=
  object (
    always "module" (ofStrings r.module) ++
    always "file" (string r.file) ++
    present "namespace" (r.spaceName.map string) ++
    flag "same_module" r.sameModule ++
    flag "wildcard" r.wildcard ++
    nonempty "references" (r.references.map (·.toJson)))

/-- Reads a re-export. -/
def ofJson? (j : Json) : Option ReExport := do
  let fs ← j.fields?
  let module ← fs.required? "module" (listOf? text?)
  let file ← fs.required? "file" text?
  let spaceName ← fs.optional? "namespace" text?
  let sameModule ← fs.default? "same_module" false bool?
  let wildcard ← fs.default? "wildcard" false bool?
  let references ← fs.default? "references" [] (listOf? ExportedReference.ofJson?)
  return { module, file, spaceName, sameModule, wildcard, references }

end ReExport

/-- The exports of a source file. -/
structure FileExports where
  exports : List ExportedReference := []
  reexports : List ReExport := []
deriving DecidableEq, Inhabited

namespace FileExports

/-- Whether nothing is exported. -/
def isEmpty (e : FileExports) : Bool := e.exports.isEmpty && e.reexports.isEmpty

/-- The first export under the given name. -/
def find? (e : FileExports) (name : String) : Option ExportedReference :=
  e.exports.find? (·.exportedName == name)

/-- The exports of a file as an object. -/
def toJson (e : FileExports) : Json :=
  object (
    nonempty "exports" (e.exports.map (·.toJson)) ++
    nonempty "reexports" (e.reexports.map (·.toJson)))

/-- Reads the exports of a file. -/
def ofJson? (j : Json) : Option FileExports := do
  let fs ← j.fields?
  let exports ← fs.default? "exports" [] (listOf? ExportedReference.ofJson?)
  let reexports ← fs.default? "reexports" [] (listOf? ReExport.ofJson?)
  return { exports, reexports }

end FileExports

end DocModel
