import DocModel.Declaration.Basic
import DocModel.Id
import DocModel.Module.Exports
import DocModel.Path
import DocModel.Table

/-!
# Modules

A module gathers the declarations of a directory or of a namespace. It knows where it stands by the
names of the modules above it, and its children by name.

## Main definitions

* `NamespaceInfo`: Where a namespace is declared, and its doc comment.
* `Module`: A module with its declarations, children and exports.
* `Module.addDeclaration`: Appending a declaration to the list of its sort.
-/

namespace DocModel

/-- What is known of a namespace that a module stands for. -/
structure NamespaceInfo where
  loc : Loc
  doc : Option DocComment
deriving DecidableEq, Inhabited

/-- The declarations of a directory or a namespace. -/
structure Module where
  name : String
  /-- The names of the modules above it, from the root. -/
  path : List String
  /-- The path of its children: `path`, then `name`. -/
  childrenPath : List String
  /-- The directory of the module. -/
  baseDir : Path
  /-- The namespace that it stands for. -/
  namespaceInfo : Option NamespaceInfo := none
  /-- The modules below it, by name. -/
  modules : Table String ModuleId := ∅
  classes : List ClassDeclaration := []
  interfaces : List InterfaceDeclaration := []
  enums : List EnumDeclaration := []
  types : List AliasDeclaration := []
  functions : List FunctionDeclaration := []
  constants : List ConstantDeclaration := []
  /-- The exports of its files, by their paths relative to the root of the project. -/
  exports : Table String FileExports := ∅
deriving DecidableEq, Inhabited

namespace Module

/-- A module without content. -/
def make (name : String) (path : List String) (baseDir : Path) : Module :=
  { name, path, childrenPath := path ++ [name], baseDir }

/-- Appends a declaration to the list of its sort. -/
def addDeclaration (m : Module) : Declaration → Module
  | .classType body => { m with classes := m.classes ++ [body] }
  | .interface body => { m with interfaces := m.interfaces ++ [body] }
  | .enum body => { m with enums := m.enums ++ [body] }
  | .function body => { m with functions := m.functions ++ [body] }
  | .constant body => { m with constants := m.constants ++ [body] }
  | .typeAlias body => { m with types := m.types ++ [body] }

/-- Every declaration of the module, sort by sort. -/
def declarations (m : Module) : List Declaration :=
  m.classes.map .classType ++ m.interfaces.map .interface ++ m.enums.map .enum ++
    m.types.map .typeAlias ++ m.functions.map .function ++ m.constants.map .constant

/-- How many declarations the module has. -/
def declarationCount (m : Module) : Nat :=
  m.classes.length + m.interfaces.length + m.enums.length + m.types.length +
    m.functions.length + m.constants.length

theorem length_declarations (m : Module) : m.declarations.length = m.declarationCount := by
  simp only [declarations, declarationCount, List.length_append, List.length_map]

/-- Whether the module stands for a namespace. -/
def isNamespace (m : Module) : Bool := m.namespaceInfo.isSome

/-- The first class with the given name. -/
def class? (m : Module) (name : String) : Option ClassDeclaration :=
  m.classes.find? (·.name == name)

/-- The first interface with the given name. -/
def interface? (m : Module) (name : String) : Option InterfaceDeclaration :=
  m.interfaces.find? (·.name == name)

/-- The first enumeration with the given name. -/
def enum? (m : Module) (name : String) : Option EnumDeclaration :=
  m.enums.find? (·.name == name)

/-- The first named type with the given name. -/
def type? (m : Module) (name : String) : Option AliasDeclaration :=
  m.types.find? (·.name == name)

/-- The first function with the given name. -/
def function? (m : Module) (name : String) : Option FunctionDeclaration :=
  m.functions.find? (·.name == name)

/-- The first constant with the given name. -/
def constant? (m : Module) (name : String) : Option ConstantDeclaration :=
  m.constants.find? (·.name == name)

end Module

end DocModel
