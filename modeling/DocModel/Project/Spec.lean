import DocModel.Package
import DocModel.Path

/-!
# Projects to be analysed

## Main definitions

* `ProjectSpec`: A project that is to be analysed.
* `ProjectError`: Why a project cannot be analysed.
-/

namespace DocModel

/-- A project that is to be analysed. -/
structure ProjectSpec where
  /-- The name of the project and of its root module. -/
  name : String
  root : Path
  entry : Option Path := none
  metadata : PackageMetadata := {}
deriving DecidableEq, Inhabited

/-- Why a project cannot be analysed. -/
inductive ProjectError where
  /-- There is no project configuration at the root. -/
  | configNotFound (root : Path)
  /-- There is no file that the project could be entered by. -/
  | entryNotFound (root : Path)
  /-- The entry file is not part of the program. -/
  | entryNotInProgram (entry : Path)
  /-- There is a project of this name already. -/
  | duplicateName (name : String)
deriving DecidableEq, Inhabited

/-- The text of an error. -/
def ProjectError.message : ProjectError → String
  | configNotFound root => "Project configuration not found in " ++ root.text
  | entryNotFound root => "No entry file found for project at " ++ root.text
  | entryNotInProgram entry => "Entry file is not part of the analyzed program: " ++ entry.text
  | duplicateName name => "Duplicate project name '" ++ name ++ "'"

end DocModel
