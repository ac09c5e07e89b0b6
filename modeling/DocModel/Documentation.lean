import DocModel.Json.Writer
import DocModel.Module.Json
import DocModel.Module.Tree
import DocModel.Package

/-!
# Documentation

The outcome of an extraction: the module trees of the projects, with the metadata of their packages.
A tree is written as the list of its modules; what it remembers to find directories faster is left
out, so a tree that is read back knows nothing of it.

## Main definitions

* `Project`: A project and its module tree.
* `Documentation`: The projects of an extraction.
* `Documentation.text`: The documentation as an indented JSON text.
-/

namespace DocModel

open Json

namespace ModuleTree

/-- A tree as an object. -/
def toJson (t : ModuleTree) : Json :=
  object (always "modules" (array (t.modules.toList.map (·.toJson))))

/-- Reads a tree. -/
def ofJson? (j : Json) : Option ModuleTree := do
  let fs ← j.fields?
  let modules ← fs.required? "modules" (listOf? Module.ofJson?)
  return { modules := modules.toArray }

end ModuleTree

/-- A project and its module tree. -/
structure Project where
  name : String
  baseDir : Path
  /-- The entry file, relative to `baseDir`. -/
  entry : Option String
  metadata : PackageMetadata
  modules : ModuleTree
deriving DecidableEq, Inhabited

namespace Project

/-- The root module of a project. -/
def root? (p : Project) : Option Module := p.modules.root?

/-- A project as an object. -/
def toJson (p : Project) : Json :=
  object (
    always "name" (string p.name) ++
    always "base_dir" (string p.baseDir.text) ++
    present "entry" (p.entry.map string) ++
    always "metadata" p.metadata.toJson ++
    always "modules" p.modules.toJson)

/-- Reads a project. -/
def ofJson? (j : Json) : Option Project := do
  let fs ← j.fields?
  let name ← fs.required? "name" text?
  let baseDir ← fs.required? "base_dir" text?
  let entry ← fs.optional? "entry" text?
  let metadata ← fs.default? "metadata" {} PackageMetadata.ofJson?
  let modules ← fs.required? "modules" ModuleTree.ofJson?
  return { name, baseDir := ⟨baseDir⟩, entry, metadata, modules }

end Project

/-- The projects of an extraction. -/
structure Documentation where
  projects : List Project
deriving DecidableEq, Inhabited

namespace Documentation

/-- The first project with the given name. -/
def project? (d : Documentation) (name : String) : Option Project :=
  d.projects.find? (·.name == name)

/-- Documentation as an object. -/
def toJson (d : Documentation) : Json :=
  object (always "projects" (array (d.projects.map (·.toJson))))

/-- Reads documentation. -/
def ofJson? (j : Json) : Option Documentation := do
  let fs ← j.fields?
  let projects ← fs.required? "projects" (listOf? Project.ofJson?)
  return { projects }

/-- Documentation as an indented text. -/
def text (d : Documentation) : String := d.toJson.indented

end Documentation

end DocModel
