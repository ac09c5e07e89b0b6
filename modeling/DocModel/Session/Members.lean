import DocModel.Comment.Parse
import DocModel.Session.State

/-!
# Members and signatures

How the members of a class, an interface or an object type are built from a program. Members mention
types, and types mention declarations; both are left to `Calls`, the two operations of an extraction
that come back to themselves.

## Main definitions

* `Calls`: Looking up a reference and building a type.
* `Calls.signature`, `Calls.typeParameters`: Signatures and type parameters.
* `Calls.objectLiteral`, `Calls.addMember`: The members of a type.
-/

namespace DocModel

/-- The two operations of an extraction that come back to themselves. -/
structure Calls where
  /-- The reference of a symbol, whose declaration is registered on first sight. -/
  reference : SymbolId → Action (Option Reference)
  /-- A type; with the node it was written as, and with the named type that is being defined, which
      is not to stand for itself. -/
  normalize : TypeId → Option NodeId → Option SymbolId → Action Ty

/-- The doc comment in front of a node. -/
def NodeInfo.doc? (n : NodeInfo) : Option DocComment := n.docComment.bind DocComment.parse?

/-- The place of a node. -/
def NodeInfo.loc (n : NodeInfo) : Loc := { line := n.line, character := n.character }

namespace Calls

variable (calls : Calls) (p : Program)

/-- A type on its own. -/
def plain (ty : TypeId) : Action Ty := calls.normalize ty none none

/-- The type that is written at a node. -/
def normalizeNode (node : NodeId) : Action Ty :=
  match p.typeAt? node with
  | some ty => calls.normalize ty (some node) none
  | none => return Ty.verbatim (((p.node? node).bind (·.text)).getD "unknown")

/-- The type parameter that a node declares. -/
def typeParameter? (node : NodeId) : Action (Option (TypeParameter Ty)) :=
  match p.node? node with
  | some { kind := .typeParameter constraint fallback _, name := some name, .. } => do
    let constraint ← constraint.mapM (calls.normalizeNode p)
    let default ← fallback.mapM (calls.normalizeNode p)
    return some { name, constraint, default }
  | _ => return none

/-- The type parameters that nodes declare. -/
def typeParameters (nodes : List NodeId) : Action (List (TypeParameter Ty)) :=
  Action.collect (calls.typeParameter? p) nodes

/-- The type parameter that a type is. -/
def typeParameterOf? (ty : TypeId) : Action (Option (TypeParameter Ty)) :=
  match ((p.typeInfo? ty).bind (·.symbol)).bind p.symbol? with
  | none => return none
  | some info =>
    match info.declaration? with
    | some node => calls.typeParameter? p node
    | none => return some { name := info.name, constraint := none, default := none }

/-- The parameter that a symbol is. -/
def parameter? (symbol : SymbolId) : Action (Option (Parameter Ty)) :=
  match p.symbol? symbol with
  | none => return none
  | some info => do
    let node := p.declarationOf? info
    let (isRest, initializer, written) :=
      match node.map NodeInfo.kind with
      | some (.parameter isRest initializer written) => (isRest, initializer, written)
      | _ => (false, none, none)
    let defaultValue := (initializer.bind p.node?).bind (·.text)
    let isOptional := node.any (·.modifiers.isOptional) || defaultValue.isSome
    let ty ← (p.valueType? symbol).mapM fun ty => calls.normalize ty written none
    return some { name := info.name, ty, isRest, isOptional, defaultValue }

/-- A signature. -/
def signature (s : SignatureInfo) : Action (Signature Ty) := do
  let typeParameters ← Action.collect (calls.typeParameterOf? p) s.typeParameters
  let parameters ← Action.collect (calls.parameter? p) s.parameters
  let returnType ← calls.plain s.returnType
  let doc := (s.declaration.bind p.node?).bind (·.doc?)
  return { typeParameters, parameters, returnType, doc }

/-- Signatures, one after the other. -/
def signatures (ss : List SignatureInfo) : Action (List (Signature Ty)) :=
  ss.mapM (calls.signature p)

end Calls

/-- The name under which construct signatures hide among properties. -/
def constructName : String := "__new"

/-- How the flags of members are found. -/
structure MemberStyle where
  /-- Whether modifiers count. -/
  withFlags : Bool
  /-- Whether every member is static. -/
  isStatic : Bool

/-- The flags of a member with the given modifiers. -/
def MemberStyle.flags (style : MemberStyle) (m : Modifiers) : MemberFlags :=
  { isPrivate := style.withFlags && m.isPrivate
    isProtected := style.withFlags && m.isProtected
    isStatic := style.isStatic || (style.withFlags && m.isStatic)
    isAbstract := style.withFlags && m.isAbstract }

namespace Calls

variable (calls : Calls) (p : Program)

/-- The method that a symbol is, of the given type. -/
def method (info : SymbolInfo) (nodes : List NodeInfo) (ty : TypeId) (style : MemberStyle) :
    Action (Method Ty) := do
  let primary := nodes.head?
  let modifiers := (primary.map (·.modifiers)).getD {}
  let signatures ← calls.signatures p (p.callSignatures ty)
  return {
    name := info.name, signatures, isOptional := modifiers.isOptional
    flags := style.flags modifiers, loc := primary.map (·.loc), doc := primary.bind (·.doc?) }

/-- The field or the accessors that a symbol is, of the given type. A getter without a setter can
    only be read. -/
def property (info : SymbolInfo) (nodes : List NodeInfo) (ty : TypeId) (style : MemberStyle) :
    Action (Property Ty) := do
  let primary := nodes.head?
  let modifiers := (primary.map (·.modifiers)).getD {}
  let hasGetter := nodes.any (·.kind == .getAccessor)
  let hasSetter := nodes.any (·.kind == .setAccessor)
  let accessor : Option AccessorKind :=
    if hasGetter then some .getter else if hasSetter then some .setter else none
  let written := primary.bind fun n =>
    match n.kind with
    | .property written => written
    | _ => none
  let value ← calls.normalize ty written none
  return {
    name := info.name, ty := some value, isOptional := modifiers.isOptional
    isReadonly := modifiers.isReadonly || (hasGetter && !hasSetter), accessor
    flags := style.flags modifiers, loc := primary.map (·.loc), doc := primary.bind (·.doc?) }

/-- Adds the member that a symbol is: a field, a method or construct signatures. A symbol without a
    type adds nothing. -/
def addMember (style : MemberStyle) (object : ObjectLiteral Ty) (symbol : SymbolId) :
    Action (ObjectLiteral Ty) :=
  match p.symbol? symbol, p.valueType? symbol with
  | some info, some ty => do
    let nodes := info.declarations.filterMap p.node?
    if info.name = constructName then
      let added ← calls.signatures p (p.constructSignatures ty ++ p.callSignatures ty)
      return { object with constructSignatures := object.constructSignatures ++ added }
    else if info.kind = .method || nodes.any (·.kind == .method) then
      let added ← calls.method p info nodes ty style
      return { object with methods := object.methods ++ [added] }
    else
      let added ← calls.property info nodes ty style
      return { object with properties := object.properties ++ [added] }
  | _, _ => return object

/-- The index signature of a type for keys of a sort. -/
def indexSignature? (ty : TypeId) (kind : IndexKind) (key : PrimitiveKind) :
    Action (Option (IndexSignature Ty)) := do
  let value ← (p.indexType? ty kind).mapM calls.plain
  return value.map fun value => { key := Ty.ofPrimitive key, ty := value }

/-- The members of a type. -/
def objectLiteral (ty : TypeId) (withFlags : Bool) : Action (ObjectLiteral Ty) := do
  let object ← (p.properties ty).foldlM (calls.addMember p ⟨withFlags, false⟩) {}
  let byString ← calls.indexSignature? p ty .string .string
  let byNumber ← calls.indexSignature? p ty .number .number
  let callSignatures ← calls.signatures p (p.callSignatures ty)
  let constructSignatures ← calls.signatures p (p.constructSignatures ty)
  return { object with
    indexSignatures := byString.toList ++ byNumber.toList
    callSignatures
    constructSignatures := object.constructSignatures ++ constructSignatures }

/-- An object type without a name: a function type if it is nothing but one call signature. -/
def objectType (ty : TypeId) : Action Ty :=
  match p.callSignatures ty with
  | [s] =>
    if (p.properties ty).isEmpty && (p.constructSignatures ty).isEmpty &&
        (p.indexType? ty .string).isNone && (p.indexType? ty .number).isNone then do
      return .of (.function (← calls.signature p s))
    else do return .of (.object (← calls.objectLiteral p ty false))
  | _ => do return .of (.object (← calls.objectLiteral p ty false))

end Calls

end DocModel
