import DocModel.Project.Discover
import DocModel.Session.Basic

/-!
# Extraction of projects

From the roots of projects to their documentation, in one go.

## Main definitions

* `ExtractionError`: Why there is no documentation.
* `extractProjects`: The documentation of some projects that share a program.
-/

namespace DocModel

/-- Why there is no documentation. -/
inductive ExtractionError where
  /-- A project cannot be analysed. -/
  | project (error : ProjectError)
  /-- The work fails, as where namespaces contain one another without end. -/
  | work (failure : Failure)
deriving DecidableEq, Inhabited

/-- Finds the project with the given root and adds it to a session. -/
def Session.addRoot (files : FileTable) (s : Session) (root : Path) :
    Except ExtractionError Session := do
  let spec ← (files.discover root).mapError .project
  let (_, s) ← (s.addProject spec).mapError .project
  return s

/-- The documentation of the projects with the given roots, which share a program. -/
def extractProjects (files : FileTable) (program : Program) (roots : List Path)
    (settings : Settings) : Except ExtractionError Documentation := do
  let s ← roots.foldlM (Session.addRoot files) (Session.start program settings)
  let s ← s.extract.mapError .work
  return s.finish

end DocModel
