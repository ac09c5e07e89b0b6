import DocModel.Ty.Equality

/-!
# Declarations

What a module of a documented program declares. Every declaration opens with the same heading: its
name, the place where it stands, its doc comment, and whether it is exported.

## Main definitions

* `Heading`: What every declaration opens with.
* `ClassDeclaration`, `InterfaceDeclaration`, `EnumDeclaration`, `FunctionDeclaration`,
  `ConstantDeclaration`, `AliasDeclaration`: The sorts of declarations.
* `Declaration`: A declaration of any sort.
-/

namespace DocModel

deriving instance Inhabited for ObjectLiteral

/-- What every declaration opens with. -/
structure Heading where
  name : String
  loc : Loc
  doc : Option DocComment
  isExported : Bool
deriving DecidableEq, Inhabited

/-- A class. -/
structure ClassDeclaration extends Heading where
  isDefault : Bool
  isAbstract : Bool
  typeParameters : List (TypeParameter Ty)
  /-- The classes that it extends. -/
  bases : List Ty
  /-- The interfaces that it implements. -/
  interfaces : List Ty
  members : ObjectLiteral Ty
deriving DecidableEq, Inhabited

/-- An interface. -/
structure InterfaceDeclaration extends Heading where
  isDefault : Bool
  typeParameters : List (TypeParameter Ty)
  /-- The interfaces that it extends. -/
  bases : List Ty
  members : ObjectLiteral Ty
deriving DecidableEq, Inhabited

/-- A member of an enumeration. -/
structure EnumMember where
  name : String
  /-- The literal that it stands for, or the type of what it is set to. -/
  initializer : Option Ty
  loc : Loc
  doc : Option DocComment
deriving DecidableEq, Inhabited

/-- An enumeration. -/
structure EnumDeclaration extends Heading where
  isConst : Bool
  members : List EnumMember
deriving DecidableEq, Inhabited

/-- The first member with the given name. -/
def EnumDeclaration.member? (d : EnumDeclaration) (name : String) : Option EnumMember :=
  d.members.find? (·.name == name)

/-- A function, or a constant whose value can be called. -/
structure FunctionDeclaration extends Heading where
  isDefault : Bool
  isAsync : Bool
  signatures : List (Signature Ty)
deriving DecidableEq, Inhabited

/-- A constant. -/
structure ConstantDeclaration extends Heading where
  ty : Option Ty
  /-- The source text of its value, cut to the length that the settings allow. -/
  content : Option String
deriving DecidableEq, Inhabited

/-- A named type. -/
structure AliasDeclaration extends Heading where
  typeParameters : List (TypeParameter Ty)
  value : Ty
deriving DecidableEq, Inhabited

/-- A declaration of any sort. -/
inductive Declaration where
  | classType (body : ClassDeclaration)
  | interface (body : InterfaceDeclaration)
  | enum (body : EnumDeclaration)
  | function (body : FunctionDeclaration)
  | constant (body : ConstantDeclaration)
  | typeAlias (body : AliasDeclaration)
deriving DecidableEq, Inhabited

namespace Declaration

/-- What the declaration opens with. -/
def heading : Declaration → Heading
  | classType body => body.toHeading
  | interface body => body.toHeading
  | enum body => body.toHeading
  | function body => body.toHeading
  | constant body => body.toHeading
  | typeAlias body => body.toHeading

/-- The name of the declaration. -/
def name (d : Declaration) : String := d.heading.name

/-- The place of the declaration. -/
def loc (d : Declaration) : Loc := d.heading.loc

/-- The doc comment of the declaration. -/
def doc (d : Declaration) : Option DocComment := d.heading.doc

/-- The name of the declaration's sort. -/
def kindName : Declaration → String
  | classType _ => "class"
  | interface _ => "interface"
  | enum _ => "enum"
  | function _ => "function"
  | constant _ => "constant"
  | typeAlias _ => "type_alias"

end Declaration

end DocModel
