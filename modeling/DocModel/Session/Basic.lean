import DocModel.Project.Spec
import DocModel.Session.Exports

/-!
# Sessions

One extraction from beginning to end: projects are added, symbols and types are looked up or whole
files extracted, and the documentation is handed over. A session is a value; every operation gives
the session after it.

## Main definitions

* `Session`: What an extraction reads, and its state.
* `Session.addProject`, `Session.addResolver`, `Session.addListener`: Setting up.
* `Session.reference`, `Session.normalize`, `Session.extract`, `Session.extractFile`,
  `Session.resolveModule`: Extracting. There is no session after a failure.
* `Session.finish`: The documentation.
-/

namespace DocModel

/-- An extraction. -/
structure Session where
  context : Context
  state : State := {}
  /-- The states in which something was asked for so far. -/
  trail : Trail := []

namespace Session

/-- A session on a program, in which calls may be nested as deeply as `steps` says. -/
def start (program : Program) (settings : Settings)
    (steps : Nat := program.enoughSteps settings) : Session :=
  { context := { program, settings, resolvers := settings.resolvers, listeners := [], steps } }

/-- Adds a project and gives its place in the list. -/
def addProject (s : Session) (spec : ProjectSpec) : Except ProjectError (Nat × Session) :=
  match spec.entry.filter fun entry => (s.context.program.fileSymbol? entry).isNone with
  | some entry => .error (.entryNotInProgram entry)
  | none =>
    if s.state.projects.any (·.name == spec.name) then .error (.duplicateName spec.name)
    else
      let tree := ModuleTree.make spec.name spec.root s.context.settings.passthroughModules
      let project : Project :=
        { name := spec.name, baseDir := spec.root, entry := spec.entry.bind tree.relativePath?
          metadata := spec.metadata, modules := tree }
      .ok (s.state.projects.length,
        { s with state := { s.state with projects := s.state.projects ++ [project] } })

/-- Adds a resolver behind those there are. -/
def addResolver (s : Session) (resolver : Resolver) : Session :=
  { s with context := { s.context with resolvers := s.context.resolvers ++ [resolver] } }

/-- Adds a listener behind those there are. -/
def addListener (s : Session) (listener : String) : Session :=
  { s with context := { s.context with listeners := s.context.listeners ++ [listener] } }

/-- Runs an action. The state it starts from is put on the trail. -/
def run {α : Type} (s : Session) (act : Action α) : Outcome (α × Session) :=
  (act s.state (s.state :: s.trail)).map fun ((a, state), trail) => (a, { s with state, trail })

/-- The reference of a symbol. -/
def reference (s : Session) (symbol : SymbolId) : Outcome (Option Reference × Session) :=
  s.run (s.context.referenceOf symbol)

/-- A type in normal form, with the node it was written as. -/
def normalize (s : Session) (ty : TypeId) (node : Option NodeId) : Outcome (Ty × Session) :=
  s.run (s.context.typeOf ty node)

/-- Extracts every file of the analysed sources. -/
def extract (s : Session) : Outcome Session := (s.run s.context.extract).map (·.2)

/-- Extracts one file. -/
def extractFile (s : Session) (file : Path) : Outcome Session :=
  (s.run (s.context.extractFile file)).map (·.2)

/-- The module that owns a file, made if needed. -/
def resolveModule (s : Session) (file : Path) : Outcome (Option ModuleHandle × Session) :=
  s.run (Action.resolveModule? file)

/-- A module of one of the projects. -/
def module? (s : Session) (handle : ModuleHandle) : Option Module := s.state.module? handle

/-- The project that a file belongs to. -/
def projectFor? (s : Session) (file : Path) : Option Nat := s.state.projectFor? file

/-- Whether a file is outside the analysed sources. -/
def isExternalFile (s : Session) (file : Path) : Bool := s.context.isExternalFile s.state file

/-- The documentation. -/
def finish (s : Session) : Documentation := { projects := s.state.projects }

/-- A line on how far the session is. -/
def summary (s : Session) : String :=
  "ExtractionSession \x7b projects: " ++ toString s.state.projects.length ++
    ", symbols: " ++ toString s.state.registry.size ++
    ", resolvers: ExternalResolvers \x7b len: " ++ toString s.context.resolvers.length ++
    " \x7d, hooks: " ++ toString s.context.listeners.length ++ " \x7d"

end Session

end DocModel
