import DocModel.Comment.Json
import DocModel.Reference.Json
import DocModel.Ty.Basic

/-!
# Types as JSON

A type is an object whose field `kind` names the form of its outermost layer and whose other fields
hold the layer's content. Writing is a fold. Reading takes one layer after the other, with a reader
for the parts given; the parts of a layer stand deeper in the value than the layer, so that the
depth of the value bounds the reading. A type is a tagged value, so its parts are read leniently.

## Main definitions

* `Ty.Shape.toJson`, `Ty.Shape.ofJson?`: Writing and reading one layer.
* `Ty.Shape.kindNames`: The names of the forms, by number.
* `Ty.toJson`, `Ty.ofJson?`: Writing and reading types.
* `Signature.toJson`, `Signature.ofJson?` and others: The records that layers are made of.
-/

namespace DocModel

open Json

variable {τ : Type}

namespace PrimitiveKind

/-- A primitive as its keyword. -/
def toJson (k : PrimitiveKind) : Json := Json.string k.keyword

/-- Reads the keyword of a primitive. -/
def ofJson? (reading : Reading) (j : Json) : Option PrimitiveKind :=
  (j.variant? reading).bind ofKeyword?

end PrimitiveKind

namespace TypeOperator

/-- An operator as its keyword. -/
def toJson (o : TypeOperator) : Json := Json.string o.keyword

/-- Reads the keyword of an operator. -/
def ofJson? (reading : Reading) (j : Json) : Option TypeOperator :=
  (j.variant? reading).bind ofKeyword?

end TypeOperator

namespace MappedModifier

/-- A modifier as its name. -/
def toJson (m : MappedModifier) : Json := Json.string m.text

/-- Reads the name of a modifier. -/
def ofJson? (reading : Reading) (j : Json) : Option MappedModifier :=
  (j.variant? reading).bind ofText?

end MappedModifier

namespace AccessorKind

/-- An accessor as its name. -/
def toJson (a : AccessorKind) : Json := Json.string a.text

/-- Reads the name of an accessor. -/
def ofJson? (reading : Reading) (j : Json) : Option AccessorKind :=
  (j.variant? reading).bind ofText?

end AccessorKind

namespace MemberFlags

/-- The flags that are set. -/
def toJson (f : MemberFlags) : Json :=
  object (
    flag "is_private" f.isPrivate ++
    flag "is_protected" f.isProtected ++
    flag "is_static" f.isStatic ++
    flag "is_abstract" f.isAbstract)

/-- Reads flags. -/
def ofJson? (j : Json) : Option MemberFlags := do
  let fs ← j.fields?
  let isPrivate ← fs.default? "is_private" false bool?
  let isProtected ← fs.default? "is_protected" false bool?
  let isStatic ← fs.default? "is_static" false bool?
  let isAbstract ← fs.default? "is_abstract" false bool?
  return { isPrivate, isProtected, isStatic, isAbstract }

/-- The flags as a field, left out where none is set. -/
def field (f : MemberFlags) : Fields := if f.isEmpty then [] else always "flags" f.toJson

end MemberFlags

namespace TupleElement

/-- An element as an object. -/
def toJson (e : TupleElement Json) : Json :=
  object (
    always "ty" e.ty ++
    present "name" (e.name.map string) ++
    flag "optional" e.optional ++
    flag "spread" e.spread)

/-- Reads an element. -/
def ofJson? (read : Json → Option τ) (j : Json) : Option (TupleElement τ) := do
  let fs ← j.fields?
  let ty ← fs.required? "ty" read
  let name ← fs.optional? "name" text?
  let optional ← fs.default? "optional" false bool?
  let spread ← fs.default? "spread" false bool?
  return { ty, name, optional, spread }

end TupleElement

namespace TemplateSpan

/-- A hole and the text behind it as an object. -/
def toJson (s : TemplateSpan Json) : Json :=
  object (always "ty" s.ty ++ always "text" (string s.text))

/-- Reads a hole and the text behind it. -/
def ofJson? (read : Json → Option τ) (j : Json) : Option (TemplateSpan τ) := do
  let fs ← j.fields?
  let ty ← fs.required? "ty" read
  let text ← fs.required? "text" text?
  return { ty, text }

end TemplateSpan

namespace MappedType

/-- The fields of a mapped type. -/
def toFields (m : MappedType Json) : Fields :=
  always "type_parameter" (string m.typeParameter) ++
  present "constraint" m.constraint ++
  present "ty" m.ty ++
  present "name_type" m.nameType ++
  present "readonly" (m.readonly.map (·.toJson)) ++
  present "optional" (m.optional.map (·.toJson))

/-- Reads the fields of a mapped type, leniently. -/
def ofFields? (read : Json → Option τ) (fs : Fields) : Option (MappedType τ) := do
  let typeParameter ← fs.required? "type_parameter" text?
  let constraint ← fs.optional? "constraint" read
  let ty ← fs.optional? "ty" read
  let nameType ← fs.optional? "name_type" read
  let readonly ← fs.optional? "readonly" (MappedModifier.ofJson? .lenient)
  let optional ← fs.optional? "optional" (MappedModifier.ofJson? .lenient)
  return { typeParameter, constraint, ty, nameType, readonly, optional }

end MappedType

namespace TypeParameter

/-- A type parameter as an object. -/
def toJson (p : TypeParameter Json) : Json :=
  object (
    always "name" (string p.name) ++
    present "constraint" p.constraint ++
    present "default" p.default)

/-- Reads a type parameter. -/
def ofJson? (read : Json → Option τ) (j : Json) : Option (TypeParameter τ) := do
  let fs ← j.fields?
  let name ← fs.required? "name" text?
  let constraint ← fs.optional? "constraint" read
  let default ← fs.optional? "default" read
  return { name, constraint, default }

end TypeParameter

namespace Parameter

/-- A parameter as an object. -/
def toJson (p : Parameter Json) : Json :=
  object (
    always "name" (string p.name) ++
    present "ty" p.ty ++
    flag "is_rest" p.isRest ++
    flag "is_optional" p.isOptional ++
    present "default_value" (p.defaultValue.map string))

/-- Reads a parameter. -/
def ofJson? (read : Json → Option τ) (j : Json) : Option (Parameter τ) := do
  let fs ← j.fields?
  let name ← fs.required? "name" text?
  let ty ← fs.optional? "ty" read
  let isRest ← fs.default? "is_rest" false bool?
  let isOptional ← fs.default? "is_optional" false bool?
  let defaultValue ← fs.optional? "default_value" text?
  return { name, ty, isRest, isOptional, defaultValue }

end Parameter

namespace Signature

/-- The fields of a signature. -/
def toFields (s : Signature Json) : Fields :=
  nonempty "type_parameters" (s.typeParameters.map (·.toJson)) ++
  always "parameters" (array (s.parameters.map (·.toJson))) ++
  always "return_type" s.returnType ++
  present "jsdoc" (s.doc.map (·.toJson))

/-- A signature as an object. -/
def toJson (s : Signature Json) : Json := object s.toFields

/-- Reads the fields of a signature. -/
def ofFields? (read : Json → Option τ) (fs : Fields) : Option (Signature τ) := do
  let typeParameters ← fs.default? "type_parameters" [] (listOf? (TypeParameter.ofJson? read))
  let parameters ← fs.default? "parameters" [] (listOf? (Parameter.ofJson? read))
  let returnType ← fs.required? "return_type" read
  let doc ← fs.optional? "jsdoc" DocComment.ofJson?
  return { typeParameters, parameters, returnType, doc }

/-- Reads a signature. -/
def ofJson? (read : Json → Option τ) (j : Json) : Option (Signature τ) :=
  j.fields?.bind (ofFields? read)

end Signature

namespace Property

/-- A property as an object. -/
def toJson (p : Property Json) : Json :=
  object (
    always "name" (string p.name) ++
    present "ty" p.ty ++
    flag "is_optional" p.isOptional ++
    flag "is_readonly" p.isReadonly ++
    present "accessor" (p.accessor.map (·.toJson)) ++
    p.flags.field ++
    present "loc" (p.loc.map (·.toJson)) ++
    present "jsdoc" (p.doc.map (·.toJson)))

/-- Reads a property. -/
def ofJson? (reading : Reading) (read : Json → Option τ) (j : Json) : Option (Property τ) := do
  let fs ← j.fields?
  let name ← fs.required? "name" text?
  let ty ← fs.optional? "ty" read
  let isOptional ← fs.default? "is_optional" false bool?
  let isReadonly ← fs.default? "is_readonly" false bool?
  let accessor ← fs.optional? "accessor" (AccessorKind.ofJson? reading)
  let flags ← fs.default? "flags" {} MemberFlags.ofJson?
  let loc ← fs.optional? "loc" Loc.ofJson?
  let doc ← fs.optional? "jsdoc" DocComment.ofJson?
  return { name, ty, isOptional, isReadonly, accessor, flags, loc, doc }

end Property

namespace Method

/-- A method as an object. -/
def toJson (m : Method Json) : Json :=
  object (
    always "name" (string m.name) ++
    always "signatures" (array (m.signatures.map (·.toJson))) ++
    flag "is_optional" m.isOptional ++
    m.flags.field ++
    present "loc" (m.loc.map (·.toJson)) ++
    present "jsdoc" (m.doc.map (·.toJson)))

/-- Reads a method. -/
def ofJson? (read : Json → Option τ) (j : Json) : Option (Method τ) := do
  let fs ← j.fields?
  let name ← fs.required? "name" text?
  let signatures ← fs.required? "signatures" (listOf? (Signature.ofJson? read))
  let isOptional ← fs.default? "is_optional" false bool?
  let flags ← fs.default? "flags" {} MemberFlags.ofJson?
  let loc ← fs.optional? "loc" Loc.ofJson?
  let doc ← fs.optional? "jsdoc" DocComment.ofJson?
  return { name, signatures, isOptional, flags, loc, doc }

end Method

namespace IndexSignature

/-- An index signature as an object. -/
def toJson (i : IndexSignature Json) : Json := object (always "key" i.key ++ always "ty" i.ty)

/-- Reads an index signature. -/
def ofJson? (read : Json → Option τ) (j : Json) : Option (IndexSignature τ) := do
  let fs ← j.fields?
  let key ← fs.required? "key" read
  let ty ← fs.required? "ty" read
  return { key, ty }

end IndexSignature

namespace ObjectLiteral

/-- The fields of the members of an object. -/
def toFields (o : ObjectLiteral Json) : Fields :=
  nonempty "properties" (o.properties.map (·.toJson)) ++
  nonempty "methods" (o.methods.map (·.toJson)) ++
  nonempty "index_signatures" (o.indexSignatures.map (·.toJson)) ++
  nonempty "call_signatures" (o.callSignatures.map (·.toJson)) ++
  nonempty "construct_signatures" (o.constructSignatures.map (·.toJson))

/-- The members of an object as an object. -/
def toJson (o : ObjectLiteral Json) : Json := object o.toFields

/-- Reads the fields of the members of an object. -/
def ofFields? (reading : Reading) (read : Json → Option τ) (fs : Fields) :
    Option (ObjectLiteral τ) := do
  let properties ← fs.default? "properties" [] (listOf? (Property.ofJson? reading read))
  let methods ← fs.default? "methods" [] (listOf? (Method.ofJson? read))
  let indexSignatures ← fs.default? "index_signatures" [] (listOf? (IndexSignature.ofJson? read))
  let callSignatures ← fs.default? "call_signatures" [] (listOf? (Signature.ofJson? read))
  let constructSignatures ← fs.default? "construct_signatures" [] (listOf? (Signature.ofJson? read))
  return { properties, methods, indexSignatures, callSignatures, constructSignatures }

/-- Reads the members of an object. -/
def ofJson? (reading : Reading) (read : Json → Option τ) (j : Json) : Option (ObjectLiteral τ) :=
  j.fields?.bind (ofFields? reading read)

end ObjectLiteral

namespace Ty

namespace Shape

/-- The fields of the content of a layer. -/
def toFields : Shape Json → Fields
  | reference target arguments isInfer =>
    always "reference" target.toJson ++ nonempty "type_arguments" arguments ++
      flag "is_infer" isInfer
  | primitive kind literal =>
    always "primitive" kind.toJson ++ present "literal" (literal.map string)
  | union members => always "types" (.array members)
  | intersection members => always "types" (.array members)
  | tuple elements => always "elements" (.array (elements.map (·.toJson)))
  | array element => always "element" element
  | object body => body.toFields
  | function signature => signature.toFields
  | mapped body => body.toFields
  | conditional check bound whenTrue whenFalse =>
    always "check" check ++ always "extends" bound ++ always "true_type" whenTrue ++
      always "false_type" whenFalse
  | indexAccess container index => always "object" container ++ always "index" index
  | operator op target => always "operator" op.toJson ++ always "target" target
  | template head spans =>
    always "head" (string head) ++ always "spans" (.array (spans.map (·.toJson)))
  | verbatim text => always "text" (string text)

/-- A layer whose parts are values, as an object. -/
def toJson (s : Shape Json) : Json := .object (always "kind" (string s.kindName) ++ s.toFields)

/-- Reads the content of a layer of the given form, leniently. -/
def ofFields? (read : Json → Option τ) (fs : Fields) (kind : String) : Option (Shape τ) :=
  match kind with
  | "reference" => do
    let target ← fs.required? "reference" (Reference.ofJson? .lenient)
    let arguments ← fs.default? "type_arguments" [] (listOf? read)
    let isInfer ← fs.default? "is_infer" false bool?
    return reference target arguments isInfer
  | "primitive" => do
    let kind ← fs.required? "primitive" (PrimitiveKind.ofJson? .lenient)
    let literal ← fs.optional? "literal" text?
    return primitive kind literal
  | "union" => (fs.required? "types" (listOf? read)).map union
  | "intersection" => (fs.required? "types" (listOf? read)).map intersection
  | "tuple" => (fs.required? "elements" (listOf? (TupleElement.ofJson? read))).map tuple
  | "array" => (fs.required? "element" read).map array
  | "object_literal" => (ObjectLiteral.ofFields? .lenient read fs).map object
  | "arrow_function" => (Signature.ofFields? read fs).map function
  | "mapped" => (MappedType.ofFields? read fs).map mapped
  | "conditional" => do
    let check ← fs.required? "check" read
    let bound ← fs.required? "extends" read
    let whenTrue ← fs.required? "true_type" read
    let whenFalse ← fs.required? "false_type" read
    return conditional check bound whenTrue whenFalse
  | "index_access" => do
    let container ← fs.required? "object" read
    let index ← fs.required? "index" read
    return indexAccess container index
  | "operator" => do
    let op ← fs.required? "operator" (TypeOperator.ofJson? .lenient)
    let target ← fs.required? "target" read
    return operator op target
  | "template_literal" => do
    let head ← fs.required? "head" text?
    let spans ← fs.required? "spans" (listOf? (TemplateSpan.ofJson? read))
    return template head spans
  | "stringified" => (fs.required? "text" text?).map verbatim
  | _ => none

/-- The names of the forms, by number. -/
def kindNames : List String :=
  ["reference", "primitive", "union", "intersection", "tuple", "array", "object_literal",
   "arrow_function", "mapped", "conditional", "index_access", "operator", "template_literal",
   "stringified"]

/-- Every form has a number. -/
theorem kindName_mem_kindNames (s : Shape τ) : s.kindName ∈ kindNames := by
  cases s <;> simp [kindName, kindNames]

/-- Reads one layer. The content stands inside a tagged value; the layer itself may not. -/
def ofJson? (reading : Reading) (read : Json → Option τ) (j : Json) : Option (Shape τ) := do
  let fs ← j.fields?
  let kind ← fs.required? "kind" (tag? reading kindNames)
  ofFields? read fs kind

end Shape

/-- A type as an object. -/
def toJson (t : Ty) : Json := t.fold Shape.toJson

/-- Reads a type of at most the given height. Its parts stand inside a tagged value. -/
def read? (reading : Reading) : Nat → Json → Option Ty
  | 0, _ => none
  | n + 1, j => (Shape.ofJson? reading (read? .lenient n) j).map of

/-- Reads a type. -/
def ofJson? (reading : Reading) (j : Json) : Option Ty := read? reading j.depth j

end Ty

end DocModel
