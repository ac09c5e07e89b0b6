import DocModel.Comment.Basic
import DocModel.Loc
import DocModel.Reference.Basic

/-!
# Shapes of types

The closed set of forms that a documented type can take, with the types inside it left open: a
`Ty.Shape τ` is one layer of a type whose parts are of type `τ`. The members of objects and the
parameters of signatures are layers as well, since a class or an interface has them too.

Every layer can be mapped over its parts, and lists its parts in the order in which they are gone
through. That is not always the order in which they are written: the value of a mapped type comes
before the type of its names.

## Main definitions

* `PrimitiveKind`, `TypeOperator`, `MappedModifier`: The keywords of types.
* `Signature`, `ObjectLiteral` and the records they are made of: Members and parameters.
* `Ty.Shape`: One layer of a type.
* `Ty.Shape.map`, `Ty.Shape.parts`: Mapping over the parts, and listing them.
-/

namespace DocModel

/-- The primitive types of the language. -/
inductive PrimitiveKind where
  | string
  | number
  | boolean
  | bigint
  | symbol
  | object
  | void
  | undefined
  | null
  | any
  | unknown
  | never
deriving DecidableEq, Inhabited

namespace PrimitiveKind

/-- Every primitive. -/
def all : List PrimitiveKind :=
  [string, number, boolean, bigint, symbol, object, void, undefined, null, any, unknown, never]

/-- The keyword of a primitive. -/
def keyword : PrimitiveKind → String
  | string => "string"
  | number => "number"
  | boolean => "boolean"
  | bigint => "bigint"
  | symbol => "symbol"
  | object => "object"
  | void => "void"
  | undefined => "undefined"
  | null => "null"
  | any => "any"
  | unknown => "unknown"
  | never => "never"

/-- The primitive of a keyword. -/
def ofKeyword? (word : String) : Option PrimitiveKind := all.find? (·.keyword == word)

theorem ofKeyword?_keyword (k : PrimitiveKind) : ofKeyword? k.keyword = some k := by
  cases k <;> rfl

end PrimitiveKind

/-- Operators that are written before a type. -/
inductive TypeOperator where
  | keyOf
  | typeOf
  | readonly
  | unique
  | infer
deriving DecidableEq, Inhabited

namespace TypeOperator

/-- Every operator. -/
def all : List TypeOperator := [keyOf, typeOf, readonly, unique, infer]

/-- The keyword of an operator. -/
def keyword : TypeOperator → String
  | keyOf => "keyof"
  | typeOf => "typeof"
  | readonly => "readonly"
  | unique => "unique"
  | infer => "infer"

/-- The operator of a keyword. -/
def ofKeyword? (word : String) : Option TypeOperator := all.find? (·.keyword == word)

theorem ofKeyword?_keyword (o : TypeOperator) : ofKeyword? o.keyword = some o := by
  cases o <;> rfl

end TypeOperator

/-- What a mapped type does to a modifier of its members. -/
inductive MappedModifier where
  | add
  | remove
  | preserve
deriving DecidableEq, Inhabited

namespace MappedModifier

/-- Every way to treat a modifier. -/
def all : List MappedModifier := [add, remove, preserve]

/-- The name of a modifier. -/
def text : MappedModifier → String
  | add => "add"
  | remove => "remove"
  | preserve => "preserve"

/-- The sign that is written before the modifier. -/
def sign : MappedModifier → String
  | add => "+"
  | remove => "-"
  | preserve => ""

/-- The modifier of a name. -/
def ofText? (name : String) : Option MappedModifier := all.find? (·.text == name)

theorem ofText?_text (m : MappedModifier) : ofText? m.text = some m := by
  cases m <;> rfl

end MappedModifier

/-- Which accessors stand behind a property. -/
inductive AccessorKind where
  | getter
  | setter
deriving DecidableEq, Inhabited

namespace AccessorKind

/-- Both accessors. -/
def all : List AccessorKind := [getter, setter]

/-- The name of an accessor. -/
def text : AccessorKind → String
  | getter => "getter"
  | setter => "setter"

/-- The accessor of a name. -/
def ofText? (name : String) : Option AccessorKind := all.find? (·.text == name)

theorem ofText?_text (a : AccessorKind) : ofText? a.text = some a := by
  cases a <;> rfl

end AccessorKind

/-- The flags of a class member. -/
structure MemberFlags where
  isPrivate : Bool := false
  isProtected : Bool := false
  isStatic : Bool := false
  isAbstract : Bool := false
deriving DecidableEq, Inhabited

/-- Whether no flag is set. -/
def MemberFlags.isEmpty (f : MemberFlags) : Bool :=
  !(f.isPrivate || f.isProtected || f.isStatic || f.isAbstract)

/-- An element of a tuple. -/
structure TupleElement (τ : Type) where
  ty : τ
  name : Option String
  optional : Bool
  spread : Bool
deriving DecidableEq

/-- A hole of a template literal and the text behind it. -/
structure TemplateSpan (τ : Type) where
  ty : τ
  text : String
deriving DecidableEq

/-- An object type whose members are computed from a set of keys. -/
structure MappedType (τ : Type) where
  typeParameter : String
  constraint : Option τ
  ty : Option τ
  nameType : Option τ
  readonly : Option MappedModifier
  optional : Option MappedModifier
deriving DecidableEq

/-- A type parameter of a declaration or a signature. -/
structure TypeParameter (τ : Type) where
  name : String
  constraint : Option τ
  default : Option τ
deriving DecidableEq

/-- A parameter of a signature. -/
structure Parameter (τ : Type) where
  name : String
  ty : Option τ
  isRest : Bool
  isOptional : Bool
  /-- The source text of the default value. -/
  defaultValue : Option String
deriving DecidableEq

/-- A call or construct signature. -/
structure Signature (τ : Type) where
  typeParameters : List (TypeParameter τ)
  parameters : List (Parameter τ)
  returnType : τ
  doc : Option DocComment
deriving DecidableEq

/-- A field, or a pair of accessors. -/
structure Property (τ : Type) where
  name : String
  ty : Option τ
  isOptional : Bool
  isReadonly : Bool
  accessor : Option AccessorKind
  flags : MemberFlags
  loc : Option Loc
  doc : Option DocComment
deriving DecidableEq

/-- A method with all its overloads. -/
structure Method (τ : Type) where
  name : String
  signatures : List (Signature τ)
  isOptional : Bool
  flags : MemberFlags
  loc : Option Loc
  doc : Option DocComment
deriving DecidableEq

/-- The type of the members whose keys have a given type. -/
structure IndexSignature (τ : Type) where
  key : τ
  ty : τ
deriving DecidableEq

/-- The members of an object type, a class or an interface. -/
structure ObjectLiteral (τ : Type) where
  properties : List (Property τ) := []
  methods : List (Method τ) := []
  indexSignatures : List (IndexSignature τ) := []
  callSignatures : List (Signature τ) := []
  constructSignatures : List (Signature τ) := []
deriving DecidableEq

/-- One layer of a type whose parts are of type `τ`. -/
inductive Ty.Shape (τ : Type) where
  /-- A named declaration, a type parameter or a name that could not be resolved. -/
  | reference (target : Reference) (arguments : List τ) (isInfer : Bool)
  /-- A primitive type, or one literal of it. -/
  | primitive (kind : PrimitiveKind) (literal : Option String)
  | union (members : List τ)
  | intersection (members : List τ)
  | tuple (elements : List (TupleElement τ))
  | array (element : τ)
  | object (body : ObjectLiteral τ)
  | function (signature : Signature τ)
  | mapped (body : MappedType τ)
  | conditional (check bound whenTrue whenFalse : τ)
  | indexAccess (container index : τ)
  | operator (operator : TypeOperator) (target : τ)
  | template (head : String) (spans : List (TemplateSpan τ))
  /-- A text that stands for a type whose form is not given. -/
  | verbatim (text : String)
deriving DecidableEq

variable {τ υ : Type}

/-- Maps over the type of an element. -/
def TupleElement.map (f : τ → υ) (e : TupleElement τ) : TupleElement υ := { e with ty := f e.ty }

/-- Maps over the type in a hole. -/
def TemplateSpan.map (f : τ → υ) (s : TemplateSpan τ) : TemplateSpan υ := { s with ty := f s.ty }

/-- Maps over the types of a mapped type. -/
def MappedType.map (f : τ → υ) (m : MappedType τ) : MappedType υ :=
  { m with constraint := m.constraint.map f, ty := m.ty.map f, nameType := m.nameType.map f }

/-- The types of a mapped type: the constraint, the value, and the type of the names. -/
def MappedType.parts (m : MappedType τ) : List τ :=
  m.constraint.toList ++ m.ty.toList ++ m.nameType.toList

/-- Maps over the types of a type parameter. -/
def TypeParameter.map (f : τ → υ) (p : TypeParameter τ) : TypeParameter υ :=
  { p with constraint := p.constraint.map f, default := p.default.map f }

/-- The types of a type parameter. -/
def TypeParameter.parts (p : TypeParameter τ) : List τ := p.constraint.toList ++ p.default.toList

/-- Maps over the type of a parameter. -/
def Parameter.map (f : τ → υ) (p : Parameter τ) : Parameter υ := { p with ty := p.ty.map f }

/-- The type of a parameter, if it has one. -/
def Parameter.parts (p : Parameter τ) : List τ := p.ty.toList

namespace Signature

/-- Maps over the types of a signature. -/
def map (f : τ → υ) (s : Signature τ) : Signature υ :=
  { s with
    typeParameters := s.typeParameters.map (·.map f)
    parameters := s.parameters.map (·.map f)
    returnType := f s.returnType }

/-- The types of a signature. -/
def parts (s : Signature τ) : List τ :=
  s.typeParameters.flatMap (·.parts) ++ s.parameters.flatMap (·.parts) ++ [s.returnType]

/-- The first parameter with the given name. -/
def parameter? (s : Signature τ) (name : String) : Option (Parameter τ) :=
  s.parameters.find? (·.name == name)

end Signature

/-- Maps over the type of a property. -/
def Property.map (f : τ → υ) (p : Property τ) : Property υ := { p with ty := p.ty.map f }

/-- The type of a property, if it has one. -/
def Property.parts (p : Property τ) : List τ := p.ty.toList

/-- Maps over the types of a method. -/
def Method.map (f : τ → υ) (m : Method τ) : Method υ :=
  { m with signatures := m.signatures.map (·.map f) }

/-- The types of a method. -/
def Method.parts (m : Method τ) : List τ := m.signatures.flatMap (·.parts)

/-- Maps over the types of an index signature. -/
def IndexSignature.map (f : τ → υ) (i : IndexSignature τ) : IndexSignature υ :=
  { key := f i.key, ty := f i.ty }

/-- The types of an index signature. -/
def IndexSignature.parts (i : IndexSignature τ) : List τ := [i.key, i.ty]

namespace ObjectLiteral

/-- Maps over the types of the members. -/
def map (f : τ → υ) (o : ObjectLiteral τ) : ObjectLiteral υ :=
  { properties := o.properties.map (·.map f)
    methods := o.methods.map (·.map f)
    indexSignatures := o.indexSignatures.map (·.map f)
    callSignatures := o.callSignatures.map (·.map f)
    constructSignatures := o.constructSignatures.map (·.map f) }

/-- The types of the members. -/
def parts (o : ObjectLiteral τ) : List τ :=
  o.properties.flatMap (·.parts) ++ o.methods.flatMap (·.parts) ++
    o.indexSignatures.flatMap (·.parts) ++ o.callSignatures.flatMap (·.parts) ++
    o.constructSignatures.flatMap (·.parts)

/-- The first property with the given name. -/
def property? (o : ObjectLiteral τ) (name : String) : Option (Property τ) :=
  o.properties.find? (·.name == name)

/-- The first method with the given name. -/
def method? (o : ObjectLiteral τ) (name : String) : Option (Method τ) :=
  o.methods.find? (·.name == name)

/-- The number of members of any sort. -/
def memberCount (o : ObjectLiteral τ) : Nat :=
  o.properties.length + o.methods.length + o.indexSignatures.length + o.callSignatures.length +
    o.constructSignatures.length

/-- Whether there are no members. -/
def isEmpty (o : ObjectLiteral τ) : Bool :=
  o.properties.isEmpty && o.methods.isEmpty && o.indexSignatures.isEmpty &&
    o.callSignatures.isEmpty && o.constructSignatures.isEmpty

end ObjectLiteral

namespace Ty.Shape

/-- Maps over the parts of a layer. -/
def map (f : τ → υ) : Shape τ → Shape υ
  | reference target arguments isInfer => reference target (arguments.map f) isInfer
  | primitive kind literal => primitive kind literal
  | union members => union (members.map f)
  | intersection members => intersection (members.map f)
  | tuple elements => tuple (elements.map (·.map f))
  | array element => array (f element)
  | object body => object (body.map f)
  | function signature => function (signature.map f)
  | mapped body => mapped (body.map f)
  | conditional check bound whenTrue whenFalse =>
    conditional (f check) (f bound) (f whenTrue) (f whenFalse)
  | indexAccess container index => indexAccess (f container) (f index)
  | operator op target => operator op (f target)
  | template head spans => template head (spans.map (·.map f))
  | verbatim text => verbatim text

/-- The parts of a layer, in the order in which they are gone through. -/
def parts : Shape τ → List τ
  | reference _ arguments _ => arguments
  | primitive _ _ => []
  | union members => members
  | intersection members => members
  | tuple elements => elements.map (·.ty)
  | array element => [element]
  | object body => body.parts
  | function signature => signature.parts
  | mapped body => body.parts
  | conditional check bound whenTrue whenFalse => [check, bound, whenTrue, whenFalse]
  | indexAccess container index => [container, index]
  | operator _ target => [target]
  | template _ spans => spans.map (·.ty)
  | verbatim _ => []

/-- The layer with its parts forgotten. -/
def outline (s : Shape τ) : Shape Unit := s.map fun _ => ()

/-- The name of the form of a layer. -/
def kindName : Shape τ → String
  | reference .. => "reference"
  | primitive .. => "primitive"
  | union _ => "union"
  | intersection _ => "intersection"
  | tuple _ => "tuple"
  | array _ => "array"
  | object _ => "object_literal"
  | function _ => "arrow_function"
  | mapped _ => "mapped"
  | conditional .. => "conditional"
  | indexAccess .. => "index_access"
  | operator .. => "operator"
  | template .. => "template_literal"
  | verbatim _ => "stringified"

end Ty.Shape

end DocModel
