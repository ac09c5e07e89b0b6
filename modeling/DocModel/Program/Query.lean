import DocModel.Program.Basic

/-!
# Queries on programs

What a reader of a program may ask. A query with a number that points nowhere finds nothing.

## Main definitions

* `Program.symbol?`, `Program.node?`, `Program.typeInfo?`: Looking up by number.
* `Program.exportsOf`, `Program.callSignatures`, `Program.properties` and others: What hangs on an
  entry.
-/

namespace DocModel.Program

/-- The record of a symbol. -/
def symbolRecord? (p : Program) (s : SymbolId) : Option SymbolRecord := p.symbols[s.index]?

/-- The record of a type. -/
def typeRecord? (p : Program) (t : TypeId) : Option TypeRecord := p.types[t.index]?

/-- The source files in path order. -/
def sourceFiles (p : Program) : List Path := p.files.keys

/-- The symbol of a source file. -/
def fileSymbol? (p : Program) (file : Path) : Option SymbolId := p.files.find? file

/-- Whether the file belongs to the language's own library. -/
def isDefaultLibrary (p : Program) (file : Path) : Bool := p.defaultLibrary.contains file

/-- A symbol. -/
def symbol? (p : Program) (s : SymbolId) : Option SymbolInfo := (p.symbolRecord? s).map (·.info)

/-- The symbol that a symbol stands for, one step on. -/
def aliased? (p : Program) (s : SymbolId) : Option SymbolId := (p.symbolRecord? s).bind (·.aliased)

/-- The symbols that a file, a namespace or an enumeration exports by name. -/
def exportsOf (p : Program) (s : SymbolId) : List SymbolId :=
  ((p.symbolRecord? s).map (·.exports)).getD []

/-- The files whose names a file exports as a whole. -/
def wildcardExports (p : Program) (s : SymbolId) : List WildcardExport :=
  ((p.symbolRecord? s).map (·.wildcardExports)).getD []

/-- The type that a symbol declares. -/
def declaredType? (p : Program) (s : SymbolId) : Option TypeId :=
  (p.symbolRecord? s).bind (·.declaredType)

/-- The type of a symbol's value. -/
def valueType? (p : Program) (s : SymbolId) : Option TypeId :=
  (p.symbolRecord? s).bind (·.valueType)

/-- A node. -/
def node? (p : Program) (n : NodeId) : Option NodeInfo := p.nodes[n.index]?

/-- The type of a node. -/
def typeAt? (p : Program) (n : NodeId) : Option TypeId := p.nodeTypes.find? n

/-- A type. -/
def typeInfo? (p : Program) (t : TypeId) : Option TypeInfo := (p.typeRecord? t).map (·.info)

/-- The arguments of a type. -/
def typeArguments (p : Program) (t : TypeId) : List TypeId :=
  ((p.typeRecord? t).map (·.arguments)).getD []

/-- The call signatures of a type. -/
def callSignatures (p : Program) (t : TypeId) : List SignatureInfo :=
  ((p.typeRecord? t).map (·.callSignatures)).getD []

/-- The construct signatures of a type. -/
def constructSignatures (p : Program) (t : TypeId) : List SignatureInfo :=
  ((p.typeRecord? t).map (·.constructSignatures)).getD []

/-- The symbols of a type's properties and methods. -/
def properties (p : Program) (t : TypeId) : List SymbolId :=
  ((p.typeRecord? t).map (·.properties)).getD []

/-- The type of the members of a type under keys of a sort. -/
def indexType? (p : Program) (t : TypeId) (kind : IndexKind) : Option TypeId :=
  (p.typeRecord? t).bind fun r =>
    match kind with
    | .string => r.stringIndex
    | .number => r.numberIndex

/-- The number of an intrinsic type. -/
def intrinsic? (p : Program) (kind : Intrinsic) : Option TypeId :=
  (p.intrinsics.find? (·.1 == kind)).map (·.2)

/-- The node that declares a symbol first. -/
def declarationOf? (p : Program) (s : SymbolInfo) : Option NodeInfo :=
  s.declaration?.bind p.node?

end DocModel.Program
