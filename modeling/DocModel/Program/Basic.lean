import DocModel.Id
import DocModel.Number.Binary64
import DocModel.Path
import DocModel.Table
import DocModel.Ty.Shape

/-!
# Programs

A type-checked program, as a checker leaves it behind: symbols, syntax nodes and types in flat
tables that refer to one another by number. Nothing forces the tables to fit together. A number may
point past the end of its table, links may run in circles, and a symbol may be declared nowhere;
whoever reads a program has to cope with that.

## Main definitions

* `SymbolInfo`, `SymbolRecord`: A symbol, and what hangs on it.
* `NodeKind`, `NodeInfo`: A piece of syntax.
* `TypeForm`, `TypeInfo`, `TypeRecord`: A type, and what hangs on it.
* `Program`: The tables of a program.
-/

namespace DocModel

/-- The sorts of symbols. -/
inductive SymbolKind where
  | classType
  | interface
  | enum
  | enumMember
  | function
  | binding
  | typeAlias
  | typeParameter
  | namespaceScope
  | sourceFile
  /-- An import or export that stands for another symbol. -/
  | link
  | property
  | method
  | accessor
  | parameter
  | typeLiteral
  | other
deriving DecidableEq, Inhabited

namespace SymbolKind

/-- Every sort of symbols. -/
def all : List SymbolKind :=
  [classType, interface, enum, enumMember, function, binding, typeAlias, typeParameter,
   namespaceScope, sourceFile, link, property, method, accessor, parameter, typeLiteral, other]

/-- The name of a sort. -/
def text : SymbolKind → String
  | classType => "class"
  | interface => "interface"
  | enum => "enum"
  | enumMember => "enum_member"
  | function => "function"
  | binding => "variable"
  | typeAlias => "type_alias"
  | typeParameter => "type_parameter"
  | namespaceScope => "namespace"
  | sourceFile => "source_file"
  | link => "alias"
  | property => "property"
  | method => "method"
  | accessor => "accessor"
  | parameter => "parameter"
  | typeLiteral => "type_literal"
  | other => "other"

/-- The sort of a name. -/
def ofText? (name : String) : Option SymbolKind := all.find? (·.text == name)

theorem ofText?_text (k : SymbolKind) : ofText? k.text = some k := by
  cases k <;> rfl

/-- Whether symbols of this sort name declarations that are documented. -/
def isDeclaration : SymbolKind → Bool
  | classType | interface | enum | enumMember | function | binding | typeAlias => true
  | _ => false

end SymbolKind

/-- A symbol: something that a program gives a name to. -/
structure SymbolInfo where
  name : String
  kind : SymbolKind
  /-- The nodes that declare it, in source order. -/
  declarations : List NodeId := []
  /-- The symbol around it. -/
  parent : Option SymbolId := none
deriving DecidableEq, Inhabited

/-- The first node that declares the symbol. -/
def SymbolInfo.declaration? (s : SymbolInfo) : Option NodeId := s.declarations.head?

/-- The modifiers that are written on a node. -/
structure Modifiers where
  isExported : Bool := false
  isDefault : Bool := false
  isPublic : Bool := false
  isPrivate : Bool := false
  isProtected : Bool := false
  isStatic : Bool := false
  isAbstract : Bool := false
  isReadonly : Bool := false
  isAsync : Bool := false
  isOptional : Bool := false
deriving DecidableEq, Inhabited

/-- What a node is, with the nodes it is made of. -/
inductive NodeKind where
  | sourceFile
  | classNode (typeParameters bases interfaces : List NodeId)
  | interface (typeParameters bases : List NodeId)
  | enum (isConst : Bool)
  | enumMember (initializer : Option NodeId)
  | function
  /-- A variable; `written` is the type that is written on it. -/
  | binding (initializer written : Option NodeId)
  | typeAlias (typeParameters : List NodeId) (value : Option NodeId)
  | namespaceScope
  | typeParameter (constraint fallback : Option NodeId) (inInfer : Bool)
  /-- A named type with its arguments. -/
  | typeReference (target : Option SymbolId) (arguments : List NodeId)
  | parameter (isRest : Bool) (initializer written : Option NodeId)
  | property (written : Option NodeId)
  | method
  | getAccessor
  | setAccessor
  | constructor
  | expression
  | typeNode
  | other
deriving DecidableEq, Inhabited

/-- A piece of syntax. -/
structure NodeInfo where
  kind : NodeKind
  /-- The file that it stands in. -/
  file : Path
  name : Option String := none
  line : Nat := 0
  character : Nat := 0
  modifiers : Modifiers := {}
  /-- Its source text. -/
  text : Option String := none
  /-- The doc comment in front of it, as written. -/
  docComment : Option String := none
deriving DecidableEq, Inhabited

/-- Whether the node stands in the given file. -/
def NodeInfo.isIn (n : NodeInfo) (file : Path) : Bool := n.file.same file

/-- The types that a checker knows by itself. -/
inductive Intrinsic where
  | any
  | unknown
  | string
  | number
  | boolean
  | true
  | false
  | bigint
  | symbol
  | void
  | undefined
  | null
  | never
  | object
deriving DecidableEq, Inhabited

namespace Intrinsic

/-- Every intrinsic type. -/
def all : List Intrinsic :=
  [any, unknown, string, number, boolean, true, false, bigint, symbol, void, undefined, null, never,
   object]

/-- The keyword of an intrinsic type. -/
def keyword : Intrinsic → String
  | any => "any"
  | unknown => "unknown"
  | string => "string"
  | number => "number"
  | boolean => "boolean"
  | true => "true"
  | false => "false"
  | bigint => "bigint"
  | symbol => "symbol"
  | void => "void"
  | undefined => "undefined"
  | null => "null"
  | never => "never"
  | object => "object"

/-- The intrinsic type of a keyword. -/
def ofKeyword? (word : String) : Option Intrinsic := all.find? (·.keyword == word)

theorem ofKeyword?_keyword (k : Intrinsic) : ofKeyword? k.keyword = some k := by
  cases k <;> rfl

end Intrinsic

/-- An element of a tuple type. -/
structure TupleMember where
  ty : TypeId
  name : Option String := none
  optional : Bool := false
  rest : Bool := false
deriving DecidableEq, Inhabited

/-- How a type is built. -/
inductive TypeForm where
  | intrinsic (kind : Intrinsic)
  | stringLiteral (value : String)
  | numberLiteral (value : Binary64)
  | bigintLiteral (digits : String)
  | union (members : List TypeId)
  | intersection (members : List TypeId)
  /-- A class, an interface, a function or an object without a name. -/
  | object
  | array (element : TypeId)
  | tuple (members : List TupleMember)
  | typeParameter
  | mapped (key : TypeId) (constraint value nameType : Option TypeId)
      (readonly optional : Option MappedModifier)
  | conditional (check bound whenTrue whenFalse : TypeId)
  | indexedAccess (container index : TypeId)
  | keyOf (target : TypeId)
  | operator (operator : TypeOperator) (target : TypeId)
  /-- Texts with a type between each and the next. -/
  | template (texts : List String) (types : List TypeId)
  /-- A built-in that maps strings, such as `Uppercase`. -/
  | stringMapping (name : String) (target : TypeId)
  | unrecognized
deriving DecidableEq, Inhabited

/-- The named type that a type was written as, with its arguments. -/
structure AliasInstance where
  symbol : SymbolId
  arguments : List TypeId := []
deriving DecidableEq, Inhabited

/-- A type. -/
structure TypeInfo where
  form : TypeForm
  /-- The symbol that it belongs to. -/
  symbol : Option SymbolId := none
  /-- The named type that it was written as. -/
  writtenAs : Option AliasInstance := none
deriving DecidableEq, Inhabited

/-- A call or construct signature. -/
structure SignatureInfo where
  declaration : Option NodeId := none
  typeParameters : List TypeId := []
  parameters : List SymbolId := []
  returnType : TypeId
deriving DecidableEq, Inhabited

/-- The sorts of keys that an index signature can have. -/
inductive IndexKind where
  | string
  | number
deriving DecidableEq, Inhabited

namespace IndexKind

/-- Both sorts of keys. -/
def all : List IndexKind := [string, number]

/-- The name of a sort of keys. -/
def text : IndexKind → String
  | string => "String"
  | number => "Number"

/-- The sort of keys of a name. -/
def ofText? (name : String) : Option IndexKind := all.find? (·.text == name)

end IndexKind

/-- An export of every name of another file, under a name of its own or not. -/
structure WildcardExport where
  /-- The symbol of the other file. -/
  target : SymbolId
  spaceName : Option String := none
deriving DecidableEq, Inhabited

/-- An entry of the table of symbols. -/
structure SymbolRecord where
  info : SymbolInfo
  /-- The symbol that it stands for. -/
  aliased : Option SymbolId := none
  exports : List SymbolId := []
  wildcardExports : List WildcardExport := []
  /-- The type that it declares. -/
  declaredType : Option TypeId := none
  /-- The type of its value. -/
  valueType : Option TypeId := none
deriving DecidableEq, Inhabited

/-- An entry of the table of types. -/
structure TypeRecord where
  info : TypeInfo
  /-- The text of the type, where the checker gave one. -/
  text : Option String := none
  arguments : List TypeId := []
  callSignatures : List SignatureInfo := []
  constructSignatures : List SignatureInfo := []
  properties : List SymbolId := []
  stringIndex : Option TypeId := none
  numberIndex : Option TypeId := none
deriving DecidableEq, Inhabited

/-- The tables of a program. -/
structure Program where
  symbols : Array SymbolRecord := #[]
  nodes : Array NodeInfo := #[]
  types : Array TypeRecord := #[]
  /-- The source files with their symbols. -/
  files : Table Path SymbolId := ∅
  /-- The files of the language's own library. -/
  defaultLibrary : Table Path Unit := ∅
  intrinsics : List (Intrinsic × TypeId) := []
  /-- The types of nodes. -/
  nodeTypes : Table NodeId TypeId := ∅
deriving DecidableEq, Inhabited

end DocModel
