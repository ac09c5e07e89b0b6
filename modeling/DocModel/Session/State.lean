import DocModel.Documentation
import DocModel.Program.Query
import DocModel.Registry
import DocModel.Settings.Basic

/-!
# States of an extraction

An extraction reads a program and fills in module trees. What it reads is fixed while it runs and is
kept in a `Context`; what it writes is a `State`.

Registering one declaration may register others, which may come back to the first. An action is a
step of this work. It changes the state and gives a result, or it fails: because the work that it
would have to do has no end, because the nesting depth would have to go below zero, or because
something is looked up that is not there.

An extraction also leaves a trail: the states in which something was asked for, also in the middle
of other work. Nothing reads the trail while the extraction runs. It is there because what holds
between two actions need not hold while one is under way, and the trail is where that can be looked
up.

## Main definitions

* `ModuleHandle`: A module of one of the projects.
* `Notice`: What a listener is told about a declaration.
* `Context`, `State`: What an extraction reads and writes.
* `Trail`: The states in which something was asked for.
* `Failure`, `Outcome`: Why an action has no result, and what comes of one.
* `Action`: A step of an extraction.
* `State.projectFor?`, `Context.isExternalFile`: Which project a file belongs to, if any.
-/

namespace DocModel

/-- A module of one of the projects. -/
structure ModuleHandle where
  /-- The place of the project in the list. -/
  project : Nat
  module : ModuleId
deriving DecidableEq, Inhabited

/-- What a listener is told when a declaration has been built, before it is attached. -/
structure Notice where
  listener : String
  declaration : Declaration
  reference : Reference
  /-- The module that the declaration is going to be attached to. -/
  module : Module
deriving DecidableEq, Inhabited

/-- What an extraction reads. -/
structure Context where
  program : Program
  settings : Settings
  /-- Who is asked for links to external declarations, in order. -/
  resolvers : List Resolver
  /-- Who is told about declarations, in order. -/
  listeners : List String
  /-- How deeply calls may be nested. -/
  steps : Nat

/-- What an extraction writes. -/
structure State where
  projects : List Project := []
  registry : Registry := {}
  /-- The modules that stand for namespaces. -/
  namespaces : Table SymbolId ModuleHandle := ∅
  /-- The references of the built-ins that map strings. -/
  stringUtilities : Table String Reference := ∅
  /-- How deeply the type in hand is nested. -/
  depth : Nat := 0
  /-- What listeners have been told so far. -/
  notices : List Notice := []
deriving DecidableEq, Inhabited

namespace State

/-- The last of the projects with the longest root that a file lies below. -/
def projectFor? (s : State) (file : Path) : Option Nat :=
  let longer := fun (best : Option (Nat × Nat)) (entry : Project × Nat) =>
    let length := entry.1.baseDir.components.length
    if file.startsWith entry.1.baseDir && best.all (·.1 ≤ length) then some (length, entry.2)
    else best
  (s.projects.zipIdx.foldl longer none).map (·.2)

/-- A module of one of the projects. -/
def module? (s : State) (handle : ModuleHandle) : Option Module := do
  let project ← s.projects[handle.project]?
  project.modules.get? handle.module

/-- The path of a file below the root of its project. -/
def relativeFile? (s : State) (file : Path) : Option String := do
  let i ← s.projectFor? file
  let project ← s.projects[i]?
  project.modules.relativePath? file

/-- Changes the module tree of a project. -/
def updateTree (s : State) (i : Nat) (change : ModuleTree → ModuleTree) : State :=
  { s with projects := s.projects.modify i fun p => { p with modules := change p.modules } }

end State

/-- Whether a file is outside the analysed sources. -/
def Context.isExternalFile (ctx : Context) (s : State) (file : Path) : Bool :=
  ctx.program.isDefaultLibrary file || file.hasName Origin.packageDirectory ||
    (s.projectFor? file).isNone

/-- The states in which something was asked for, the latest first. -/
abbrev Trail := List State

/-- Why an action has no result. -/
inductive Failure where
  /-- The work has no end. -/
  | endless
  /-- The nesting depth is zero and has to go down. -/
  | depthBelowZero
  /-- Something that is looked up by its number is not there. -/
  | missing
deriving DecidableEq, Inhabited

/-- What comes of an action: a result, or a failure, after which there is nothing left. -/
abbrev Outcome := Except Failure

/-- A step of an extraction. -/
abbrev Action := StateT State (StateT Trail Outcome)

namespace Action

/-- Gives up. -/
def fail {α : Type} (failure : Failure) : Action α := fun _ _ => .error failure

/-- What has to be there. -/
def require {α : Type} : Option α → Action α
  | some a => return a
  | none => fail .missing

/-- Puts the state on the trail. -/
def note : Action Unit := fun s trail => .ok (((), s), s :: trail)

/-- Makes a reference with a number of its own. -/
def mint (name : String) (kind : ReferenceKind) : Action Reference := do
  let s ← get
  let (reference, registry) := s.registry.mint name kind
  set { s with registry }
  return reference

/-- Enters the reference of a symbol. -/
def enter (symbol : SymbolId) (reference : Reference) : Action Unit :=
  modify fun s => { s with registry := s.registry.insert symbol reference }

/-- The reference that is entered for a symbol. -/
def entered? (symbol : SymbolId) : Action (Option Reference) := do
  return (← get).registry.find? symbol

/-- Puts a tree in place of the module tree of a project. -/
def setTree (i : Nat) (tree : ModuleTree) : Action Unit := modify (·.updateTree i fun _ => tree)

/-- The module that owns a file, made if needed; none for a file of no project. -/
def resolveModule? (file : Path) : Action (Option ModuleHandle) := do
  let s ← get
  match s.projectFor? file with
  | none => return none
  | some i =>
    let project ← require s.projects[i]?
    let (id, tree) ← require (project.modules.resolveModule file)
    setTree i tree
    return some ⟨i, id⟩

/-- Goes one level into a type. -/
def descend : Action Unit := modify fun s => { s with depth := s.depth + 1 }

/-- Comes back from one level into a type. From depth zero there is no way back. -/
def ascend : Action Unit := do
  let s ← get
  match s.depth with
  | 0 => fail .depthBelowZero
  | depth + 1 => set { s with depth }

/-- Sets the nesting depth to zero and gives the depth there was. -/
def takeDepth : Action Nat := do
  let s ← get
  set { s with depth := 0 }
  return s.depth

/-- Sets the nesting depth. -/
def setDepth (depth : Nat) : Action Unit := modify fun s => { s with depth }

/-- The results of an action on the items of a list, where it has one. -/
def collect {α β : Type} (act : α → Action (Option β)) (items : List α) : Action (List β) := do
  return (← items.mapM act).filterMap id

end Action

end DocModel
