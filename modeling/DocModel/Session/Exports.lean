import DocModel.Session.Engine

/-!
# Exports of files

How the exports of a file are found. A file passes on names of other files of the projects: all of
them, all of them under one name, or single ones. These are grouped by the file they come from and
the name they stand under. Everything else that it exports is its own, or comes from outside.

## Main definitions

* `Context.changeGroup?`: Changes the group of names from one file.
* `Context.addExport`: One export.
* `Context.trackExports`: All exports of a file.
* `Context.extractFile`: Enters the exports of a file in its module.
-/

namespace DocModel.Context

/-- The file that declares a symbol. -/
def symbolFile? (ctx : Context) (symbol : SymbolId) : Option Path :=
  ((ctx.program.symbol? symbol).bind ctx.program.declarationOf?).map (·.file)

/-- The groups with the group of a file and a name changed; the group is appended if there is none.
-/
def changeIn (groups : List ReExport) (fresh : ReExport) (change : ReExport → ReExport) :
    List ReExport :=
  match groups with
  | [] => [change fresh]
  | g :: rest =>
    if g.file = fresh.file ∧ g.spaceName = fresh.spaceName then change g :: rest
    else g :: changeIn rest fresh change

/-- Changes the group of names that come from a file under a name. A file from outside has none. -/
def changeGroup? (ctx : Context) (owner : ModuleHandle) (exports : FileExports) (target : Path)
    (spaceName : Option String) (change : ReExport → ReExport) : Action (Option FileExports) := do
  if ctx.isExternalFile (← get) target then return none
  else
    match ← Action.resolveModule? target with
    | none => return none
    | some handle =>
      let s ← get
      match s.relativeFile? target, s.module? handle with
      | some file, some module =>
        let fresh : ReExport :=
          { module := module.childrenPath, file, spaceName, sameModule := handle == owner }
        return some { exports with reexports := changeIn exports.reexports fresh change }
      | _, _ => return none

/-- A reference as it is exported under a name. -/
def exportedAs (name : String) (reference : Reference) : ExportedReference :=
  { reference, renamed := if name = reference.name then none else some name }

/-- Adds an export of the file's own, if it has a reference. -/
def addDirect (ctx : Context) (exports : FileExports) (symbol : SymbolId) (name : String) :
    Action FileExports := do
  match ← ctx.referenceOf symbol with
  | none => return exports
  | some reference =>
    return { exports with exports := exports.exports ++ [exportedAs name reference] }

/-- Passes on all names of a file. -/
def addWildcard (ctx : Context) (owner : ModuleHandle) (exports : FileExports) (target : Path)
    (spaceName : Option String) : Action FileExports := do
  let changed ← ctx.changeGroup? owner exports target spaceName fun g => { g with wildcard := true }
  return changed.getD exports

/-- Passes on one name of a file, unless it has no reference. -/
def addPassedOn? (ctx : Context) (owner : ModuleHandle) (exports : FileExports) (target : SymbolId)
    (targetFile : Path) (name : String) : Action (Option FileExports) := do
  match ← ctx.referenceOf target with
  | none => return none
  | some reference =>
    ctx.changeGroup? owner exports targetFile none fun g =>
      { g with references := g.references ++ [exportedAs name reference] }

/-- Adds the export of a symbol that stands for another. -/
def addAlias (ctx : Context) (owner : ModuleHandle) (file : Path) (exports : FileExports)
    (symbol : SymbolId) (name : String) : Action FileExports := do
  let target := ctx.program.resolveAlias symbol
  match (ctx.program.symbol? target).map SymbolInfo.kind, ctx.symbolFile? target with
  | some .sourceFile, some targetFile => ctx.addWildcard owner exports targetFile (some name)
  | some _, some targetFile =>
    if !targetFile.same file && !ctx.isExternalFile (← get) targetFile then
      match ← ctx.addPassedOn? owner exports target targetFile name with
      | some changed => return changed
      | none => ctx.addDirect exports symbol name
    else ctx.addDirect exports symbol name
  | _, _ => ctx.addDirect exports symbol name

/-- Adds the export of a symbol. -/
def addExport (ctx : Context) (owner : ModuleHandle) (file : Path) (exports : FileExports)
    (symbol : SymbolId) : Action FileExports :=
  match ctx.program.symbol? symbol with
  | none => return exports
  | some info =>
    if info.kind = .link then ctx.addAlias owner file exports symbol info.name
    else ctx.addDirect exports symbol info.name

/-- The exports of a file that belongs to the given module. -/
def trackExports (ctx : Context) (owner : ModuleHandle) (file : Path) : Action FileExports :=
  match ctx.program.fileSymbol? file with
  | none => return {}
  | some fileSymbol => do
    let whole := fun exports (w : WildcardExport) =>
      match ctx.symbolFile? w.target with
      | none => return exports
      | some target => ctx.addWildcard owner exports target w.spaceName
    let exports ← (ctx.program.wildcardExports fileSymbol).foldlM whole {}
    (ctx.program.exportsOf fileSymbol).foldlM (ctx.addExport owner file) exports

/-- Enters the exports of a file in its module. A file of no project is passed over. -/
def extractFile (ctx : Context) (file : Path) : Action Unit := do
  match ← Action.resolveModule? file with
  | none => return ()
  | some owner =>
    let exports ← ctx.trackExports owner file
    if exports.isEmpty then return ()
    else
      match ((← get).projects[owner.project]?).bind (·.modules.relativePath? file) with
      | none => return ()
      | some relative =>
        modify (·.updateTree owner.project (·.update owner.module fun m =>
          { m with exports := m.exports.insert relative exports }))

/-- Whether a file of a project is left out by the settings. -/
def isExcluded (ctx : Context) (s : State) (file : Path) : Bool :=
  let root := ((s.projectFor? file).bind fun i => s.projects[i]?).map Project.baseDir
  ctx.settings.isExcluded ((root.bind file.relativeTo?).getD file)

/-- Extracts every file of the analysed sources, in path order. -/
def extract (ctx : Context) : Action Unit :=
  ctx.program.sourceFiles.forM fun file => do
    let s ← get
    if ctx.isExternalFile s file || ctx.isExcluded s file then return ()
    else ctx.extractFile file

end DocModel.Context
