import DocModel.Json.Fields
import DocModel.Json.Reader

/-!
# Package metadata

What a project says about itself in its package manifest: its name and version, a description,
links, and hints where its entry file is.

## Main definitions

* `PackageMetadata`: The metadata of a package.
* `PackageMetadata.ofManifest?`: Reading the text of a manifest.
* `PackageMetadata.toJson`, `PackageMetadata.ofJson?`: Writing and reading metadata.
-/

namespace DocModel

open Json

/-- The metadata of a package. -/
structure PackageMetadata where
  name : Option String := none
  version : Option String := none
  description : Option String := none
  homepage : Option String := none
  repository : Option String := none
  /-- Where the entry file may be, most telling first. -/
  entryHints : List String := []
deriving DecidableEq, Inhabited

namespace PackageMetadata

/-- Metadata as an object. -/
def toJson (m : PackageMetadata) : Json :=
  object (
    present "name" (m.name.map string) ++
    present "version" (m.version.map string) ++
    present "description" (m.description.map string) ++
    present "homepage" (m.homepage.map string) ++
    present "repository" (m.repository.map string) ++
    nonempty "entry_hints" (m.entryHints.map string))

/-- Reads metadata. -/
def ofJson? (j : Json) : Option PackageMetadata := do
  let fs ← j.fields?
  let name ← fs.optional? "name" text?
  let version ← fs.optional? "version" text?
  let description ← fs.optional? "description" text?
  let homepage ← fs.optional? "homepage" text?
  let repository ← fs.optional? "repository" text?
  let entryHints ← fs.default? "entry_hints" [] (listOf? text?)
  return { name, version, description, homepage, repository, entryHints }

/-- The address in the repository of a manifest: an address, or an object that may hold one. The
    value is taken in as a whole, inside the object of the manifest. -/
def repositoryOf? (j : Json) : Option (Option String) :=
  if j.isWhole (maxDepth - 1) then
    match j with
    | string url => some (some url)
    | object fs => Fields.optional? fs "url" text?
    | _ => none
  else none

/-- Reads the text of a package manifest. -/
def ofManifest? (text : String) : Option PackageMetadata := do
  let j ← Json.parse? text
  let fs ← j.fields?
  let name ← fs.optional? "name" text?
  let version ← fs.optional? "version" text?
  let description ← fs.optional? "description" text?
  let homepage ← fs.optional? "homepage" text?
  let repository ← fs.optional? "repository" repositoryOf?
  let entry ← fs.optional? "main" text?
  let types ← fs.optional? "types" text?
  let typings ← fs.optional? "typings" text?
  return {
    name, version, description, homepage, repository := repository.join
    entryHints := [types, typings, entry].filterMap id }

end PackageMetadata

end DocModel
