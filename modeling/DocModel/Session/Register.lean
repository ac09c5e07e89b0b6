import DocModel.Program.Alias
import DocModel.Session.Normalize

/-!
# Registering declarations

How a symbol gets its reference. A symbol that stands for another has the reference of the other. A
symbol of the analysed sources is registered on first sight: its reference is made and entered, its
declaration is built, listeners are told, and the declaration is attached to its module. A symbol
from outside gets a reference with a link.

A declaration inside a namespace belongs to the namespace's module, which is registered first; any
other belongs to the module of its file.

## Main definitions

* `Calls.externalReference`: The reference of a symbol from outside.
* `Calls.registerClass`, `Calls.registerInterface`, `Calls.registerEnum`, `Calls.registerFunction`,
  `Calls.registerBinding`, `Calls.registerTypeAlias`, `Calls.registerNamespace`: The sorts of
  declarations.
* `Calls.resolveSymbol`: The reference of a symbol that has none yet.
* `Calls.referenceStep`: The reference of a symbol.
-/

namespace DocModel

/-- The kind of the references to symbols of a sort. -/
def SymbolKind.referenceKind : SymbolKind → ReferenceKind
  | classType => .classType
  | interface => .interface
  | enum => .enum
  | enumMember => .enumMember
  | function => .function
  | binding => .constant
  | typeAlias => .typeAlias
  | typeParameter => .typeParameter
  | namespaceScope | sourceFile => .module
  | _ => .unknown

/-- Whether a symbol is a namespace. -/
def Program.isNamespace (p : Program) (symbol : SymbolId) : Bool :=
  (p.symbol? symbol).any (·.kind == .namespaceScope)

/-- Whether a symbol stands directly inside a namespace. -/
def Program.isInNamespace (p : Program) (info : SymbolInfo) : Bool :=
  info.parent.any p.isNamespace

/-- The place of a declaration. Outside namespaces it says which file it is in. -/
def Context.declarationLoc (ctx : Context) (s : State) (info : SymbolInfo) (node : NodeInfo) :
    Loc :=
  if ctx.program.isInNamespace info then node.loc
  else { node.loc with file := s.relativeFile? node.file }

/-- What a declaration opens with. -/
def Context.heading (ctx : Context) (s : State) (info : SymbolInfo) (node : NodeInfo) : Heading :=
  { name := info.name, loc := ctx.declarationLoc s info node, doc := node.doc?
    isExported := node.modifiers.isExported }

/-- Tells listeners about a declaration, then attaches it to its module. -/
def finishDeclaration (ctx : Context) (handle : ModuleHandle) (reference : Reference)
    (declaration : Declaration) : Action Unit := do
  let s ← get
  match s.module? handle with
  | none => return ()
  | some module =>
    let told : List Notice :=
      ctx.listeners.map fun listener => ⟨listener, declaration, reference, module⟩
    let s := s.updateTree handle.project (·.update handle.module (·.addDeclaration declaration))
    set { s with notices := s.notices ++ told }

namespace Calls

variable (calls : Calls) (ctx : Context)

/-- The reference of a symbol from outside the analysed sources. -/
def externalReference (symbol : SymbolId) (info : SymbolInfo) (node : NodeInfo) :
    Action Reference := do
  let kind := info.kind.referenceKind
  let origin := Origin.ofFile node.file (ctx.program.isDefaultLibrary node.file)
  let link := Resolver.first? ctx.resolvers { name := info.name, kind, origin }
  let minted ← Action.mint info.name kind
  let reference := { minted with link }
  Action.enter symbol reference
  match info.kind, info.parent with
  | .enumMember, some parent =>
    match ← calls.reference parent with
    | none => return reference
    | some parent =>
      let reference := { reference with parent := some parent }
      Action.enter symbol reference
      return reference
  | _, _ => return reference

/-- The reference of a source file: that of the module that owns it. -/
def fileReference (symbol : SymbolId) (node : NodeInfo) : Action (Option Reference) := do
  match ← Action.resolveModule? node.file with
  | none => return none
  | some handle =>
    match (← get).module? handle with
    | none => return none
    | some module =>
      let minted ← Action.mint module.name .module
      let reference := { minted with path := some module.path }
      Action.enter symbol reference
      return some reference

/-- The module of a namespace, or that of a file if the namespace has none. -/
def moduleWithin? (space : SymbolId) (file : Path) : Action (Option ModuleHandle) := do
  match (← get).namespaces.find? space with
  | some handle => return some handle
  | none => Action.resolveModule? file

/-- The module of a declaration: that of the namespace around it, or that of its file. -/
def owningModule? (info : SymbolInfo) (node : NodeInfo) : Action (Option ModuleHandle) :=
  match info.parent with
  | none => Action.resolveModule? node.file
  | some parent =>
    if ctx.program.isNamespace parent then do
      if !(← get).namespaces.contains parent then
        let _ ← calls.reference parent
      moduleWithin? parent node.file
    else Action.resolveModule? node.file

/-- Makes and enters the reference of a declaration, before the declaration is built. -/
def beginDeclaration? (symbol : SymbolId) (info : SymbolInfo) (node : NodeInfo)
    (kind : ReferenceKind) : Action (Option (Reference × ModuleHandle)) := do
  match ← calls.owningModule? ctx info node with
  | none => return none
  | some handle =>
    match (← get).module? handle with
    | none => return none
    | some module =>
      let minted ← Action.mint info.name kind
      let reference := { minted with path := some module.childrenPath }
      Action.enter symbol reference
      return some (reference, handle)

/-- Registers a declaration: its reference is entered, `build` makes the declaration, and the
    declaration is attached. -/
def register (symbol : SymbolId) (info : SymbolInfo) (node : NodeInfo) (kind : ReferenceKind)
    (build : Reference → Action Declaration) : Action (Option Reference) := do
  match ← calls.beginDeclaration? ctx symbol info node kind with
  | none => return none
  | some (reference, handle) =>
    let declaration ← build reference
    finishDeclaration ctx handle reference declaration
    return some reference

/-- Adds what belongs to a class itself and not to its instances: static members and constructors.
-/
def addStatics (symbol : SymbolId) (members : ObjectLiteral Ty) : Action (ObjectLiteral Ty) :=
  let p := ctx.program
  match p.valueType? symbol with
  | none => return members
  | some ty => do
    let statics := (p.properties ty).filter fun s => (p.symbol? s).any (·.name != "prototype")
    let members ← statics.foldlM (calls.addMember p ⟨true, true⟩) members
    let added ← calls.signatures p (p.constructSignatures ty)
    return { members with constructSignatures := members.constructSignatures ++ added }

/-- Registers a class. -/
def registerClass (symbol : SymbolId) (info : SymbolInfo) (node : NodeInfo) :
    Action (Option Reference) :=
  let p := ctx.program
  match node.kind, p.declaredType? symbol with
  | .classNode typeParameters bases interfaces, some ty =>
    calls.register ctx symbol info node .classType fun _ => do
      let typeParameters ← calls.typeParameters p typeParameters
      let bases ← bases.mapM (calls.normalizeNode p)
      let interfaces ← interfaces.mapM (calls.normalizeNode p)
      let members ← calls.objectLiteral p ty true
      let members ← calls.addStatics ctx symbol members
      return .classType { ctx.heading (← get) info node with
        isDefault := node.modifiers.isDefault, isAbstract := node.modifiers.isAbstract
        typeParameters, bases, interfaces, members }
  | _, _ => return none

/-- Registers an interface. -/
def registerInterface (symbol : SymbolId) (info : SymbolInfo) (node : NodeInfo) :
    Action (Option Reference) :=
  let p := ctx.program
  match node.kind, p.declaredType? symbol with
  | .interface typeParameters bases, some ty =>
    calls.register ctx symbol info node .interface fun _ => do
      let typeParameters ← calls.typeParameters p typeParameters
      let bases ← bases.mapM (calls.normalizeNode p)
      let members ← calls.objectLiteral p ty true
      return .interface { ctx.heading (← get) info node with
        isDefault := node.modifiers.isDefault, typeParameters, bases, members }
  | _, _ => return none

/-- What a member of an enumeration is set to, or the literal that it stands for. -/
def memberValue? (member : SymbolId) (node : Option NodeInfo) : Action (Option Ty) :=
  let p := ctx.program
  match node.map NodeInfo.kind with
  | some (.enumMember (some expression)) => do
    return some (← calls.normalizeNode p expression)
  | _ => return ((p.declaredType? member).or (p.valueType? member)).bind p.literalType?

/-- Registers a member of an enumeration together with it. Other symbols are passed over. -/
def enumMember? (reference : Reference) (node : NodeInfo) (member : SymbolId) :
    Action (Option EnumMember) :=
  let p := ctx.program
  match p.symbol? member with
  | none => return none
  | some info =>
    if info.kind = .enumMember then do
      let memberNode := p.declarationOf? info
      let minted ← Action.mint info.name .enumMember
      Action.enter member { minted with parent := some reference, path := reference.path }
      let initializer ← calls.memberValue? ctx member memberNode
      return some {
        name := info.name, initializer
        loc := (memberNode.getD node).loc, doc := memberNode.bind (·.doc?) }
    else return none

/-- Registers an enumeration with its members. -/
def registerEnum (symbol : SymbolId) (info : SymbolInfo) (node : NodeInfo) :
    Action (Option Reference) :=
  let p := ctx.program
  match node.kind, p.declaredType? symbol with
  | .enum isConst, some _ =>
    calls.register ctx symbol info node .enum fun reference => do
      let members ← Action.collect (calls.enumMember? ctx reference node) (p.exportsOf symbol)
      return .enum { ctx.heading (← get) info node with isConst, members }
  | _, _ => return none

/-- Registers something that can be called, of the given type. -/
def registerCallable (symbol : SymbolId) (info : SymbolInfo) (node : NodeInfo) (ty : TypeId)
    (isAsync : Bool) : Action (Option Reference) :=
  let p := ctx.program
  if (p.callSignatures ty).isEmpty then return none
  else
    calls.register ctx symbol info node .function fun _ => do
      let signatures ← calls.signatures p (p.callSignatures ty)
      return .function { ctx.heading (← get) info node with
        isDefault := node.modifiers.isDefault, isAsync, signatures }

/-- Registers a function. -/
def registerFunction (symbol : SymbolId) (info : SymbolInfo) (node : NodeInfo) :
    Action (Option Reference) :=
  match node.kind, ctx.program.valueType? symbol with
  | .function, some ty =>
    calls.registerCallable ctx symbol info node ty node.modifiers.isAsync
  | _, _ => return none

/-- Registers a variable: as a function if it can be called, as a constant otherwise. -/
def registerBinding (symbol : SymbolId) (info : SymbolInfo) (node : NodeInfo) :
    Action (Option Reference) :=
  let p := ctx.program
  match node.kind, p.valueType? symbol with
  | .binding initializer written, some ty =>
    let initializer := initializer.bind p.node?
    if (p.callSignatures ty).isEmpty then
      calls.register ctx symbol info node .constant fun _ => do
        let cut := fun (text : String) =>
          String.ofList (text.toList.take ctx.settings.maxConstantTextLength)
        let value ← calls.normalize ty written none
        return .constant { ctx.heading (← get) info node with
          ty := some value, content := (initializer.bind (·.text)).map cut }
    else
      let isAsync := node.modifiers.isAsync || initializer.any (·.modifiers.isAsync)
      calls.registerCallable ctx symbol info node ty isAsync
  | _, _ => return none

/-- Registers a named type. Its own name is not to stand for what it is defined as. -/
def registerTypeAlias (symbol : SymbolId) (info : SymbolInfo) (node : NodeInfo) :
    Action (Option Reference) :=
  let p := ctx.program
  match node.kind, p.declaredType? symbol with
  | .typeAlias typeParameters value, some ty =>
    calls.register ctx symbol info node .typeAlias fun _ => do
      let typeParameters ← calls.typeParameters p typeParameters
      let value ← calls.normalize ty value (some symbol)
      return .typeAlias { ctx.heading (← get) info node with typeParameters, value }
  | _, _ => return none

/-- Registers a namespace as a module, and then what it exports. -/
def registerNamespace (symbol : SymbolId) (info : SymbolInfo) (node : NodeInfo) :
    Action (Option Reference) := do
  match ← calls.owningModule? ctx info node with
  | none => return none
  | some outer =>
    let s ← get
    match s.projects[outer.project]?, s.module? outer with
    | some project, some outerModule =>
      let details := { loc := ctx.declarationLoc s info node, doc := node.doc? }
      let (id, tree) ←
        Action.require (project.modules.namespaceModule outer.module info.name details)
      Action.setTree outer.project tree
      let minted ← Action.mint info.name .module
      let reference := { minted with path := some outerModule.childrenPath }
      Action.enter symbol reference
      modify fun s =>
        { s with namespaces := s.namespaces.insert symbol ⟨outer.project, id⟩ }
      (ctx.program.exportsOf symbol).forM fun exported => do
        let _ ← calls.reference exported
      return some reference
    | _, _ => return none

/-- Registers the declaration of a symbol of the analysed sources. -/
def registerDeclaration (symbol : SymbolId) (info : SymbolInfo) (node : NodeInfo) :
    Action (Option Reference) :=
  match info.kind with
  | .classType => calls.registerClass ctx symbol info node
  | .interface => calls.registerInterface ctx symbol info node
  | .enum => calls.registerEnum ctx symbol info node
  | .function => calls.registerFunction ctx symbol info node
  | .binding => calls.registerBinding ctx symbol info node
  | .typeAlias => calls.registerTypeAlias ctx symbol info node
  | .namespaceScope => calls.registerNamespace ctx symbol info node
  | .sourceFile => fileReference symbol node
  | _ => return none

/-- The reference of a member of an enumeration, which is registered with the enumeration. The
    nesting depth is set back only where the enumeration has a reference. -/
def enumMemberReference? (symbol : SymbolId) (info : SymbolInfo) : Action (Option Reference) := do
  let depth ← Action.takeDepth
  match info.parent with
  | none => return none
  | some parent =>
    match ← calls.reference parent with
    | none => return none
    | some _ =>
      Action.setDepth depth
      Action.entered? symbol

/-- Registers a symbol of the analysed sources. The nesting depth counts within one declaration, so
    it starts from zero. -/
def registerSymbol (symbol : SymbolId) (info : SymbolInfo) (node : NodeInfo) :
    Action (Option Reference) :=
  if info.kind = .enumMember then calls.enumMemberReference? symbol info
  else do
    let depth ← Action.takeDepth
    let reference ← calls.registerDeclaration ctx symbol info node
    Action.setDepth depth
    return reference

/-- Registers the namespace around a symbol, which may register the symbol as well. Gives the
    reference of the symbol in that case. -/
def registerEnclosing? (symbol : SymbolId) (info : SymbolInfo) : Action (Option Reference) :=
  match info.parent with
  | none => return none
  | some parent => do
    if !(← get).namespaces.contains parent && ctx.program.isNamespace parent then
      let _ ← calls.reference parent
      Action.entered? symbol
    else return none

/-- The reference of a symbol that has none yet. -/
def resolveSymbol (symbol : SymbolId) (info : SymbolInfo) : Action (Option Reference) := do
  if info.kind = .typeParameter then
    let reference ← Action.mint info.name .typeParameter
    Action.enter symbol reference
    return some reference
  else
    match ctx.program.declarationOf? info with
    | none => return none
    | some node =>
      if ctx.isExternalFile (← get) node.file then
        return some (← calls.externalReference ctx symbol info node)
      else
        match ← calls.registerEnclosing? ctx symbol info with
        | some reference => return some reference
        | none => calls.registerSymbol ctx symbol info node

/-- The reference of a symbol. What a symbol stands for is entered for it as well. -/
def referenceStep (symbol : SymbolId) : Action (Option Reference) := do
  match ← Action.entered? symbol with
  | some reference => return some reference
  | none =>
    let target := ctx.program.resolveAlias symbol
    if target = symbol then
      match ctx.program.symbol? symbol with
      | none => return none
      | some info => calls.resolveSymbol ctx symbol info
    else
      match ← Action.entered? target with
      | some reference =>
        Action.enter symbol reference
        return some reference
      | none =>
        match ctx.program.symbol? target with
        | none => return none
        | some info =>
          match ← calls.resolveSymbol ctx target info with
          | none => return none
          | some reference =>
            Action.enter symbol reference
            return some reference

end Calls

end DocModel
