import DocModel.Module.Basic
import DocModel.Text.Search

/-!
# Module trees

The modules of one project. A module stands for a directory below the root of the project, or for a
namespace; directories that only sort files, such as `src`, are passed through and have no module of
their own. Modules are numbered in the order they were made, the root first, and a number once given
stays with its module.

The module of a directory is looked up often, so the tree remembers the directories it has resolved.
A directory is remembered by its components: any spelling of it finds the same entry.

## Main definitions

* `ModuleTree`: The modules of a project.
* `ModuleTree.find?`: The module at a path of names.
* `ModuleTree.childOrCreate`, `ModuleTree.namespaceModule`: The child of a module, made if needed.
* `ModuleTree.resolveModule`: The module that owns a file, made if needed.
-/

namespace DocModel

/-- The modules of one project. -/
structure ModuleTree where
  /-- The modules in the order they were made. -/
  modules : Array Module
  /-- The names of directories that are passed through. -/
  passthrough : List String := []
  /-- The directories that were resolved, with their modules. -/
  directories : Table Path ModuleId := ∅
deriving DecidableEq, Inhabited

namespace ModuleTree

/-- The number of the root. -/
def rootId : ModuleId := ⟨0⟩

/-- A tree with a root only, named after the project. -/
def make (name : String) (baseDir : Path) (passthrough : List String) : ModuleTree :=
  { modules := #[Module.make name [] baseDir], passthrough }

/-- The number of modules. -/
def size (t : ModuleTree) : Nat := t.modules.size

/-- Whether there is no module at all. -/
def isEmpty (t : ModuleTree) : Bool := t.modules.isEmpty

/-- The module of a number. -/
def get? (t : ModuleTree) (id : ModuleId) : Option Module := t.modules[id.index]?

/-- The root. -/
def root? (t : ModuleTree) : Option Module := t.get? rootId

/-- Changes the module of a number; a number that has none changes nothing. -/
def update (t : ModuleTree) (id : ModuleId) (change : Module → Module) : ModuleTree :=
  { t with modules := t.modules.modify id.index change }

/-- The modules with their numbers, in the order they were made. -/
def entries (t : ModuleTree) : List (ModuleId × Module) :=
  t.modules.toList.zipIdx.map fun (m, i) => (⟨i⟩, m)

/-- The module that names lead to from a given one. -/
def descend? (t : ModuleTree) (id : ModuleId) : List String → Option ModuleId
  | [] => some id
  | name :: names => do
    let m ← t.get? id
    let child ← m.modules.find? name
    t.descend? child names

/-- The module whose children have the given path. -/
def find? (t : ModuleTree) : List String → Option ModuleId
  | [] => none
  | name :: names => do
    let root ← t.root?
    if name = root.name then t.descend? rootId names else none

/-- The names of a file below the root of the project, joined by slashes. -/
def relativePath? (t : ModuleTree) (file : Path) : Option String := do
  let root ← t.root?
  let below ← file.relativeTo? root.baseDir
  return Text.joinWith "/" below.names

/-- Appends a module as a child of another. -/
def addChild (t : ModuleTree) (parent : ModuleId) (child : Module) : ModuleTree :=
  let id : ModuleId := ⟨t.modules.size⟩
  { t with modules := (t.modules.push child).modify parent.index fun m =>
      { m with modules := m.modules.insert child.name id } }

/-- The child of a module with the given name, made if there is none. Fails if there is no such
    module. -/
def childOrCreate (t : ModuleTree) (parent : ModuleId) (name : String) :
    Option (ModuleId × ModuleTree) := do
  let m ← t.get? parent
  match m.modules.find? name with
  | some id => return (id, t)
  | none =>
    let child := Module.make name m.childrenPath (m.baseDir.join ⟨name⟩)
    return (⟨t.modules.size⟩, t.addChild parent child)

/-- The module that names lead to from a given one, made on the way where it is missing. -/
def descendOrCreate (t : ModuleTree) (id : ModuleId) : List String → Option (ModuleId × ModuleTree)
  | [] => some (id, t)
  | name :: names => do
    let (child, t) ← t.childOrCreate id name
    t.descendOrCreate child names

/-- The child of a module that stands for a namespace. A module that is there already is shared and
    stays what it is. -/
def namespaceModule (t : ModuleTree) (parent : ModuleId) (name : String) (info : NamespaceInfo) :
    Option (ModuleId × ModuleTree) := do
  let m ← t.get? parent
  let (id, t) ← t.childOrCreate parent name
  if m.modules.contains name then return (id, t)
  else return (id, t.update id fun m => { m with namespaceInfo := some info })

/-- The names of the modules that lead to a directory below `base`. -/
def moduleNames? (t : ModuleTree) (base dir : Path) : Option (List String) :=
  (dir.relativeTo? base).map fun below => below.names.filter (!t.passthrough.contains ·)

/-- The module that owns a file, made if needed. A file outside the project belongs to the root. -/
def resolveModule (t : ModuleTree) (file : Path) : Option (ModuleId × ModuleTree) :=
  match file.parent? with
  | none => some (rootId, t)
  | some dir =>
    match t.directories.find? dir with
    | some id => some (id, t)
    | none => do
      let root ← t.root?
      match t.moduleNames? root.baseDir dir with
      | none => return (rootId, t)
      | some names =>
        let (id, t) ← t.descendOrCreate rootId names
        return (id, { t with directories := t.directories.insert dir id })

end ModuleTree

end DocModel
