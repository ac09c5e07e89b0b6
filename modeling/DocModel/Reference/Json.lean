import DocModel.Json.Fields
import DocModel.Reference.Basic

/-!
# References as JSON

A reference is an object that leaves out what the reference does not have.

## Main definitions

* `Reference.toJson`, `Reference.ofJson?`: Writing and reading references.
-/

namespace DocModel

namespace ReferenceKind

/-- A kind as its name. -/
def toJson (k : ReferenceKind) : Json := .string k.text

/-- Reads the name of a kind. -/
def ofJson? (reading : Json.Reading) (j : Json) : Option ReferenceKind :=
  (j.variant? reading).bind ofText?

end ReferenceKind

namespace Reference

open Json

/-- A reference as an object. -/
def toJson : Reference → Json
  | ⟨id, name, kind, path, parent, link⟩ =>
    object (
      always "id" (ofNat id.index) ++
      always "name" (string name) ++
      always "kind" kind.toJson ++
      present "path" (path.map ofStrings) ++
      (match parent with
        | some p => always "parent" p.toJson
        | none => []) ++
      present "link" (link.map string))

/-- Reads a reference whose parents reach no deeper than the given bound. -/
def read? (reading : Reading) : Nat → Json → Option Reference
  | 0, _ => none
  | n + 1, j => do
    let fs ← j.fields?
    let id ← fs.required? "id" word?
    let name ← fs.required? "name" text?
    let kind ← fs.required? "kind" (ReferenceKind.ofJson? reading)
    let path ← fs.optional? "path" (listOf? text?)
    let parent ← fs.optional? "parent" (read? reading n)
    let link ← fs.optional? "link" text?
    return { id := ⟨id⟩, name, kind, path, parent, link }

/-- Reads a reference. -/
def ofJson? (reading : Reading) (j : Json) : Option Reference := read? reading j.depth j

end Reference

end DocModel
