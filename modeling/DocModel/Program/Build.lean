import DocModel.Program.Basic

/-!
# Building programs

Operations that add entries to the tables of a program, or fill them in. An added entry gets the
next number of its table, and keeps it. Filling in an entry that is not there changes nothing.

## Main definitions

* `Program.addFile`, `Program.addNode`, `Program.addSymbol`, `Program.addType`: New entries.
* `Program.declare`, `Program.addDeclaration`: A symbol and a node that declares it.
* `Program.updateSymbol`, `Program.updateType`: Filling in an entry, and what is built on them.
-/

namespace DocModel.Program

/-- Adds a node. -/
def addNode (p : Program) (node : NodeInfo) : NodeId × Program :=
  (⟨p.nodes.size⟩, { p with nodes := p.nodes.push node })

/-- Adds a symbol with nothing hanging on it. -/
def addSymbol (p : Program) (info : SymbolInfo) : SymbolId × Program :=
  (⟨p.symbols.size⟩, { p with symbols := p.symbols.push { info } })

/-- Adds a type with nothing hanging on it. -/
def addType (p : Program) (info : TypeInfo) : TypeId × Program :=
  (⟨p.types.size⟩, { p with types := p.types.push { info } })

/-- Changes the record of a symbol. -/
def updateSymbol (p : Program) (s : SymbolId) (change : SymbolRecord → SymbolRecord) : Program :=
  { p with symbols := p.symbols.modify s.index change }

/-- Changes the record of a type. -/
def updateType (p : Program) (t : TypeId) (change : TypeRecord → TypeRecord) : Program :=
  { p with types := p.types.modify t.index change }

/-- Adds a source file, with a node and a symbol that stand for it. A file that is there already
    keeps its symbol. -/
def addFile (p : Program) (file : Path) : SymbolId × Program :=
  match p.files.find? file with
  | some symbol => (symbol, p)
  | none =>
    let (node, p) := p.addNode { kind := .sourceFile, file }
    let (symbol, p) := p.addSymbol
      { name := file.fileStem?.getD "", kind := .sourceFile, declarations := [node] }
    (symbol, { p with files := p.files.insert file symbol })

/-- Adds a symbol and the node that declares it. A node without a name gets that of the symbol. -/
def declare (p : Program) (parent : Option SymbolId) (name : String) (kind : SymbolKind)
    (node : NodeInfo) : SymbolId × Program :=
  let (node, p) := p.addNode { node with name := some (node.name.getD name) }
  p.addSymbol { name, kind, declarations := [node], parent }

/-- Adds a node that declares a symbol once more. The node is added even where there is no such
    symbol. -/
def addDeclaration (p : Program) (symbol : SymbolId) (node : NodeInfo) :
    Option NodeId × Program :=
  let (node, p) := p.addNode node
  if symbol.index < p.symbols.size then
    (some node, p.updateSymbol symbol fun r =>
      { r with info := { r.info with declarations := r.info.declarations ++ [node] } })
  else (none, p)

/-- Exports a symbol from a container, once. -/
def addExport (p : Program) (container symbol : SymbolId) : Program :=
  p.updateSymbol container fun r =>
    if symbol ∈ r.exports then r else { r with exports := r.exports ++ [symbol] }

/-- Exports every name of another file. -/
def addWildcardExport (p : Program) (file : SymbolId) (entry : WildcardExport) : Program :=
  p.updateSymbol file fun r => { r with wildcardExports := r.wildcardExports ++ [entry] }

/-- Sets the type that a symbol declares. -/
def setDeclaredType (p : Program) (symbol : SymbolId) (ty : TypeId) : Program :=
  p.updateSymbol symbol fun r => { r with declaredType := some ty }

/-- Sets the type of a symbol's value. -/
def setValueType (p : Program) (symbol : SymbolId) (ty : TypeId) : Program :=
  p.updateSymbol symbol fun r => { r with valueType := some ty }

/-- Sets the symbol that a symbol stands for. -/
def setAliased (p : Program) (symbol target : SymbolId) : Program :=
  p.updateSymbol symbol fun r => { r with aliased := some target }

/-- Sets the type of a node. -/
def setNodeType (p : Program) (node : NodeId) (ty : TypeId) : Program :=
  { p with nodeTypes := p.nodeTypes.insert node ty }

/-- Puts a file into the language's own library. -/
def markDefaultLibrary (p : Program) (file : Path) : Program :=
  { p with defaultLibrary := p.defaultLibrary.insert file () }

/-- The number of an intrinsic type, which is added on first use. -/
def intrinsicType (p : Program) (kind : Intrinsic) : TypeId × Program :=
  match p.intrinsics.find? (·.1 == kind) with
  | some (_, ty) => (ty, p)
  | none =>
    let (ty, p) := p.addType { form := .intrinsic kind }
    (ty, { p with intrinsics := p.intrinsics ++ [(kind, ty)] })

/-- Sets the text of a type. -/
def setTypeText (p : Program) (ty : TypeId) (text : String) : Program :=
  p.updateType ty fun r => { r with text := some text }

/-- Adds a property to a type. -/
def addProperty (p : Program) (ty : TypeId) (property : SymbolId) : Program :=
  p.updateType ty fun r => { r with properties := r.properties ++ [property] }

/-- Adds a call signature to a type. -/
def addCallSignature (p : Program) (ty : TypeId) (signature : SignatureInfo) : Program :=
  p.updateType ty fun r => { r with callSignatures := r.callSignatures ++ [signature] }

/-- Adds a construct signature to a type. -/
def addConstructSignature (p : Program) (ty : TypeId) (signature : SignatureInfo) : Program :=
  p.updateType ty fun r => { r with constructSignatures := r.constructSignatures ++ [signature] }

/-- Sets the arguments of a type. -/
def setTypeArguments (p : Program) (ty : TypeId) (arguments : List TypeId) : Program :=
  p.updateType ty fun r => { r with arguments }

/-- Sets the type of the members of a type under keys of a sort. -/
def setIndexType (p : Program) (ty : TypeId) (kind : IndexKind) (value : TypeId) : Program :=
  p.updateType ty fun r =>
    match kind with
    | .string => { r with stringIndex := some value }
    | .number => { r with numberIndex := some value }

end DocModel.Program
