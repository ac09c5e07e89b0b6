import DocModel.Number.Layout
import DocModel.Program.Text
import DocModel.Session.Members
import DocModel.Text.Quoted
import DocModel.Ty.Union

/-!
# Types of a program in normal form

How a type of a program becomes a `Ty`. A type that has a name is given by its name, whatever it is
made of: first by the named type it was written as, then by the reference at the node where it is
written, then by the declaration it belongs to. Only a type without a name is taken apart. What
cannot be taken apart is given as a text.

Types nested as deeply as the settings allow are given as texts too, so that the result is finite
even where a program's types run in circles.

## Main definitions

* `Intrinsic.ty`, `TypeForm.literal?`: Primitive types and literals.
* `Calls.normalizeStructure`: A type without a name.
* `Calls.normalizeType`: A type, with the way it was written.
* `Calls.normalizeStep`: A type, up to the nesting limit.
-/

namespace DocModel

/-- An intrinsic type in normal form. -/
def Intrinsic.ty : Intrinsic → Ty
  | any => Ty.ofPrimitive .any
  | unknown => Ty.ofPrimitive .unknown
  | string => Ty.ofPrimitive .string
  | number => Ty.ofPrimitive .number
  | boolean => Ty.ofPrimitive .boolean
  | true => Ty.boolTrue
  | false => Ty.boolFalse
  | bigint => Ty.ofPrimitive .bigint
  | symbol => Ty.ofPrimitive .symbol
  | void => Ty.ofPrimitive .void
  | undefined => Ty.ofPrimitive .undefined
  | null => Ty.ofPrimitive .null
  | never => Ty.ofPrimitive .never
  | object => Ty.ofPrimitive .object

/-- A primitive type or a literal in normal form. -/
def TypeForm.literal? : TypeForm → Option Ty
  | intrinsic kind => some kind.ty
  | stringLiteral value => some (Ty.literal .string (Text.quote value))
  | numberLiteral value => some (Ty.literal .number value.literal)
  | bigintLiteral digits =>
    some (Ty.literal .bigint (String.ofList (Text.dropEnd 'n' digits.toList) ++ "n"))
  | _ => none

namespace Program

/-- The primitive type or boolean literal that a type is by its number. -/
def identityPrimitive? (p : Program) (ty : TypeId) : Option Ty :=
  ([.string, .number, .boolean, .true, .false].find? fun kind => p.intrinsic? kind = some ty).map
    (·.ty)

/-- The primitive type or literal that a type is. -/
def literalType? (p : Program) (ty : TypeId) : Option Ty :=
  (p.identityPrimitive? ty).or ((p.typeInfo? ty).bind (·.form.literal?))

/-- Whether a symbol is a type parameter that an `infer` clause declares. -/
def isDeclaredInInfer (p : Program) (symbol : SymbolId) : Bool :=
  ((p.symbol? symbol).bind p.declarationOf?).any fun n =>
    match n.kind with
    | .typeParameter _ _ inInfer => inInfer
    | _ => false

/-- A reference to a symbol as a type. -/
def referenceType (p : Program) (reference : Reference) (arguments : List Ty) (symbol : SymbolId) :
    Ty :=
  .of (.reference reference arguments
    (reference.kind == .typeParameter && p.isDeclaredInInfer symbol))

/-- The name of the key in a mapped type. -/
def mappedKey (p : Program) (key : TypeId) : String :=
  ((((p.typeInfo? key).bind (·.symbol)).bind p.symbol?).map (·.name)).getD (p.typeText key)

end Program

/-- The reference of a built-in that maps strings. All uses share one. -/
def stringUtility (name : String) : Action Reference := do
  match (← get).stringUtilities.find? name with
  | some reference => return reference
  | none =>
    let reference ← Action.mint name .stringUtility
    modify fun s => { s with stringUtilities := s.stringUtilities.insert name reference }
    return reference

/-- A type that nothing is known about: a reference to nothing, named by the type's text. -/
def unknownReference (p : Program) (ty : TypeId) : Action Ty := do
  return Ty.ofReference (← Action.mint (p.typeText ty) .unknown) []

namespace Calls

variable (calls : Calls) (p : Program)

/-- Types, one after the other. -/
def normalizeAll (tys : List TypeId) : Action (List Ty) := tys.mapM calls.plain

/-- An element of a tuple type. -/
def tupleElement (m : TupleMember) : Action (TupleElement Ty) := do
  return { ty := ← calls.plain m.ty, name := m.name, optional := m.optional, spread := m.rest }

/-- The holes of a template with the texts behind them. A text that is missing is empty. -/
def templateSpans : List TypeId → List String → Action (List (TemplateSpan Ty))
  | [], _ => return []
  | ty :: tys, texts => do
    let ty ← calls.plain ty
    let spans ← templateSpans tys texts.tail
    return { ty, text := texts.headD "" } :: spans

/-- A type made of other types. -/
def composite (ty : TypeId) : TypeForm → Action Ty
  | .union members => do return Ty.union (← calls.normalizeAll members)
  | .intersection members => do return .of (.intersection (← calls.normalizeAll members))
  | .tuple members => do return .of (.tuple (← members.mapM calls.tupleElement))
  | .conditional check bound whenTrue whenFalse => do
    let check ← calls.plain check
    let bound ← calls.plain bound
    let whenTrue ← calls.plain whenTrue
    let whenFalse ← calls.plain whenFalse
    return .of (.conditional check bound whenTrue whenFalse)
  | .indexedAccess container index => do
    let container ← calls.plain container
    let index ← calls.plain index
    return .of (.indexAccess container index)
  | .keyOf target => do return .of (.operator .keyOf (← calls.plain target))
  | .operator op target => do return .of (.operator op (← calls.plain target))
  | .template texts types => do
    return .of (.template (texts.headD "") (← calls.templateSpans types texts.tail))
  | .unrecognized => return Ty.verbatim (p.typeText ty)
  | _ => unknownReference p ty

/-- A type without a name. -/
def normalizeStructure (ty : TypeId) (info : TypeInfo) : Action Ty :=
  match info.form with
  | .typeParameter =>
    match info.symbol with
    | none => unknownReference p ty
    | some symbol => do
      match ← calls.reference symbol with
      | some reference => return p.referenceType reference [] symbol
      | none => unknownReference p ty
  | .stringMapping name target => do
    let reference ← stringUtility name
    let target ← calls.plain target
    return Ty.ofReference reference [target]
  | .mapped key constraint value nameType readonly optional => do
    let constraint ← constraint.mapM calls.plain
    let value ← value.mapM calls.plain
    let nameType ← nameType.mapM calls.plain
    return .of (.mapped {
      typeParameter := p.mappedKey key, constraint, ty := value, nameType, readonly, optional })
  | .object => calls.objectType p ty
  | form =>
    match (p.identityPrimitive? ty).or form.literal? with
    | some literal => return literal
    | none => calls.composite p ty form

/-- The named type that a type was written as, unless it is the one being defined. -/
def writtenAlias? (info : TypeInfo) (expanding : Option SymbolId) : Action (Option Ty) :=
  match info.writtenAs with
  | none => return none
  | some written =>
    if some written.symbol = expanding then return none
    else do
      match ← calls.reference written.symbol with
      | none => return none
      | some reference =>
        return some (Ty.ofReference reference (← calls.normalizeAll written.arguments))

/-- The reference that is written at a node, for a type that belongs to no symbol. -/
def writtenReference? (info : TypeInfo) (node : Option NodeId) : Action (Option Ty) :=
  match info.symbol, (node.bind p.node?).map NodeInfo.kind with
  | none, some (.typeReference (some target) arguments) => do
    match ← calls.reference target with
    | none => return none
    | some reference =>
      let arguments ← arguments.mapM (calls.normalizeNode p)
      return some (p.referenceType reference arguments target)
  | _, _ => return none

/-- The declaration that a type belongs to. -/
def owningReference? (ty : TypeId) (info : TypeInfo) : Action (Option Ty) :=
  match info.symbol with
  | none => return none
  | some symbol =>
    if (p.symbol? symbol).any (·.kind.isDeclaration) then do
      match ← calls.reference symbol with
      | none => return none
      | some reference =>
        let arguments ← calls.normalizeAll (p.typeArguments ty)
        return some (p.referenceType reference arguments symbol)
    else return none

/-- A type, by its names or by its structure. -/
def normalizeType (ty : TypeId) (node : Option NodeId) (expanding : Option SymbolId) :
    Action Ty :=
  match p.typeInfo? ty with
  | none => unknownReference p ty
  | some info => do
    match ← calls.writtenAlias? info expanding with
    | some t => return t
    | none =>
      match ← calls.writtenReference? p info node with
      | some t => return t
      | none =>
        match info.form with
        | .array element => return Ty.array (← calls.plain element)
        | _ =>
          match ← calls.owningReference? p ty info with
          | some t => return t
          | none => calls.normalizeStructure p ty info

/-- A type, or its text where the nesting limit is reached. -/
def normalizeStep (ctx : Context) (ty : TypeId) (node : Option NodeId)
    (expanding : Option SymbolId) : Action Ty := do
  if ctx.settings.maxTypeDepth ≤ (← get).depth then return Ty.verbatim (ctx.program.typeText ty)
  else
    Action.descend
    let t ← calls.normalizeType ctx.program ty node expanding
    Action.ascend
    return t

end Calls

end DocModel
