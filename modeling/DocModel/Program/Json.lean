import DocModel.Json.Writer
import DocModel.Json.Reader
import DocModel.Module.Json
import DocModel.Program.Basic

/-!
# Programs as JSON

A program is an object with its tables. Every field of an entry is written, null where there is
nothing. A form with content is an object whose only key is the name of the form; a form without
content is its name. The numbers of nodes that are keys are written in decimal digits.

## Main definitions

* `Program.toJson`, `Program.ofJson?`: Writing and reading programs.
* `Program.snapshot`, `Program.ofSnapshot?`: Programs as texts.
* `SymbolInfo.toJson`, `SymbolInfo.ofJson?` and others: The entries.
-/

namespace DocModel

open Json

namespace SymbolId

/-- A symbol as its number. -/
def toJson (s : SymbolId) : Json := ofNat s.index

/-- Reads the number of a symbol. -/
def ofJson? (j : Json) : Option SymbolId := j.word?.map mk

end SymbolId

namespace NodeId

/-- A node as its number. -/
def toJson (n : NodeId) : Json := ofNat n.index

/-- Reads the number of a node. -/
def ofJson? (j : Json) : Option NodeId := j.word?.map mk

/-- The number of a node as a key. -/
def toKey (n : NodeId) : String := toString n.index

/-- Reads the number of a node from a key: decimal digits without leading zeros, none of them
    written with an escape. -/
def ofKey? (key : Key) : Option NodeId :=
  let cs := key.text.toList
  let n := decimalNumber cs
  if !key.escaped && cs.all Char.isDigit && n < twoTo 32 && toString n == key.text then some ⟨n⟩
  else none

end NodeId

namespace TypeId

/-- A type as its number. -/
def toJson (t : TypeId) : Json := ofNat t.index

/-- Reads the number of a type. -/
def ofJson? (j : Json) : Option TypeId := j.word?.map mk

end TypeId

/-- Values one by one, as an array. -/
def arrayOf {α : Type} (write : α → Json) (as : List α) : Json := array (as.map write)

/-- A value, or null. -/
def orNull {α : Type} (write : α → Json) (a : Option α) : Json := ofOption (a.map write)

namespace SymbolKind

/-- A sort of symbols as its name. -/
def toJson (k : SymbolKind) : Json := .string k.text

/-- Reads the name of a sort of symbols. -/
def ofJson? (j : Json) : Option SymbolKind := (j.variant? .strict).bind ofText?

end SymbolKind

namespace Intrinsic

/-- An intrinsic type as its keyword. -/
def toJson (k : Intrinsic) : Json := .string k.keyword

/-- Reads the keyword of an intrinsic type. -/
def ofJson? (j : Json) : Option Intrinsic := (j.variant? .strict).bind ofKeyword?

end Intrinsic

namespace IndexKind

/-- Reads the name of a sort of keys. -/
def ofJson? (j : Json) : Option IndexKind := (j.variant? .strict).bind ofText?

end IndexKind

namespace SymbolInfo

/-- A symbol as an object. -/
def toJson (s : SymbolInfo) : Json :=
  object (
    always "name" (string s.name) ++
    always "kind" s.kind.toJson ++
    always "declarations" (arrayOf NodeId.toJson s.declarations) ++
    always "parent" (orNull SymbolId.toJson s.parent))

/-- Reads a symbol. -/
def ofJson? (j : Json) : Option SymbolInfo := do
  let fs ← j.fields?
  let name ← fs.required? "name" text?
  let kind ← fs.required? "kind" SymbolKind.ofJson?
  let declarations ← fs.default? "declarations" [] (listOf? NodeId.ofJson?)
  let parent ← fs.optional? "parent" SymbolId.ofJson?
  return { name, kind, declarations, parent }

end SymbolInfo

namespace Modifiers

/-- Modifiers as an object. -/
def toJson (m : Modifiers) : Json :=
  object (
    always "is_exported" (bool m.isExported) ++
    always "is_default" (bool m.isDefault) ++
    always "is_public" (bool m.isPublic) ++
    always "is_private" (bool m.isPrivate) ++
    always "is_protected" (bool m.isProtected) ++
    always "is_static" (bool m.isStatic) ++
    always "is_abstract" (bool m.isAbstract) ++
    always "is_readonly" (bool m.isReadonly) ++
    always "is_async" (bool m.isAsync) ++
    always "is_optional" (bool m.isOptional))

/-- Reads modifiers. -/
def ofJson? (j : Json) : Option Modifiers := do
  let fs ← j.fields?
  let isExported ← fs.default? "is_exported" false bool?
  let isDefault ← fs.default? "is_default" false bool?
  let isPublic ← fs.default? "is_public" false bool?
  let isPrivate ← fs.default? "is_private" false bool?
  let isProtected ← fs.default? "is_protected" false bool?
  let isStatic ← fs.default? "is_static" false bool?
  let isAbstract ← fs.default? "is_abstract" false bool?
  let isReadonly ← fs.default? "is_readonly" false bool?
  let isAsync ← fs.default? "is_async" false bool?
  let isOptional ← fs.default? "is_optional" false bool?
  return {
    isExported, isDefault, isPublic, isPrivate, isProtected, isStatic, isAbstract, isReadonly,
    isAsync, isOptional }

end Modifiers

/-- A form with content: the name of the form, then its fields. -/
def formWith (name : String) (fs : Fields) : Json := object [(name, object fs)]

namespace NodeKind

/-- A list of nodes as a field. -/
def nodesField (key : String) (ns : List NodeId) : Fields := always key (arrayOf NodeId.toJson ns)

/-- A node that may be missing, as a field. -/
def nodeField (key : String) (n : Option NodeId) : Fields := always key (orNull NodeId.toJson n)

/-- What a node is, as a value. -/
def toJson : NodeKind → Json
  | sourceFile => string "SourceFile"
  | classNode typeParameters bases interfaces =>
    formWith "Class" (
      nodesField "type_parameters" typeParameters ++
      nodesField "extends" bases ++
      nodesField "implements" interfaces)
  | interface typeParameters bases =>
    formWith "Interface" (
      nodesField "type_parameters" typeParameters ++
      nodesField "extends" bases)
  | enum isConst => formWith "Enum" (always "is_const" (bool isConst))
  | enumMember initializer => formWith "EnumMember" (nodeField "initializer" initializer)
  | function => string "Function"
  | binding initializer written =>
    formWith "Variable" (
      nodeField "initializer" initializer ++
      nodeField "type_annotation" written)
  | typeAlias typeParameters value =>
    formWith "TypeAlias" (
      nodesField "type_parameters" typeParameters ++
      nodeField "value" value)
  | namespaceScope => string "Namespace"
  | typeParameter constraint fallback inInfer =>
    formWith "TypeParameter" (
      nodeField "constraint" constraint ++
      nodeField "default" fallback ++
      always "in_infer" (bool inInfer))
  | typeReference target arguments =>
    formWith "TypeReference" (
      always "target" (orNull SymbolId.toJson target) ++
      nodesField "type_arguments" arguments)
  | parameter isRest initializer written =>
    formWith "Parameter" (
      always "is_rest" (bool isRest) ++
      nodeField "initializer" initializer ++
      nodeField "type_annotation" written)
  | property written => formWith "Property" (nodeField "type_annotation" written)
  | method => string "Method"
  | getAccessor => string "GetAccessor"
  | setAccessor => string "SetAccessor"
  | constructor => string "Constructor"
  | expression => string "Expression"
  | typeNode => string "TypeNode"
  | other => string "Other"

/-- The kinds without content, by name. -/
def plain : List (String × NodeKind) :=
  [("SourceFile", sourceFile), ("Function", function), ("Namespace", namespaceScope),
   ("Method", method), ("GetAccessor", getAccessor), ("SetAccessor", setAccessor),
   ("Constructor", constructor), ("Expression", expression), ("TypeNode", typeNode),
   ("Other", other)]

/-- Reads a list of nodes that may be missing. -/
def nodesOf? (fs : Fields) (key : String) : Option (List NodeId) :=
  fs.default? key [] (listOf? NodeId.ofJson?)

/-- Reads a node that may be missing. -/
def nodeOf? (fs : Fields) (key : String) : Option (Option NodeId) :=
  fs.optional? key NodeId.ofJson?

/-- Reads the content of the named kind. -/
def ofFields? (fs : Fields) : String → Option NodeKind
  | "Class" => do
    let typeParameters ← nodesOf? fs "type_parameters"
    let bases ← nodesOf? fs "extends"
    let interfaces ← nodesOf? fs "implements"
    return classNode typeParameters bases interfaces
  | "Interface" => do
    let typeParameters ← nodesOf? fs "type_parameters"
    let bases ← nodesOf? fs "extends"
    return interface typeParameters bases
  | "Enum" => (fs.default? "is_const" false bool?).map enum
  | "EnumMember" => (nodeOf? fs "initializer").map enumMember
  | "Variable" => do
    let initializer ← nodeOf? fs "initializer"
    let written ← nodeOf? fs "type_annotation"
    return binding initializer written
  | "TypeAlias" => do
    let typeParameters ← nodesOf? fs "type_parameters"
    let value ← nodeOf? fs "value"
    return typeAlias typeParameters value
  | "TypeParameter" => do
    let constraint ← nodeOf? fs "constraint"
    let fallback ← nodeOf? fs "default"
    let inInfer ← fs.default? "in_infer" false bool?
    return typeParameter constraint fallback inInfer
  | "TypeReference" => do
    let target ← fs.optional? "target" SymbolId.ofJson?
    let arguments ← nodesOf? fs "type_arguments"
    return typeReference target arguments
  | "Parameter" => do
    let isRest ← fs.default? "is_rest" false bool?
    let initializer ← nodeOf? fs "initializer"
    let written ← nodeOf? fs "type_annotation"
    return parameter isRest initializer written
  | "Property" => (nodeOf? fs "type_annotation").map property
  | _ => none

/-- Reads what a node is. -/
def ofJson? (j : Json) : Option NodeKind :=
  match (j.variant? .strict).bind (named? plain) with
  | some kind => some kind
  | none => do
    let (name, content) ← j.tagged?
    let fs ← content.fields?
    ofFields? fs name

end NodeKind

namespace NodeInfo

/-- A node as an object. -/
def toJson (n : NodeInfo) : Json :=
  object (
    always "kind" n.kind.toJson ++
    always "file" (string n.file.text) ++
    always "name" (orNull string n.name) ++
    always "line" (ofNat n.line) ++
    always "character" (ofNat n.character) ++
    always "modifiers" n.modifiers.toJson ++
    always "text" (orNull string n.text) ++
    always "doc_comment" (orNull string n.docComment))

/-- Reads a node. -/
def ofJson? (j : Json) : Option NodeInfo := do
  let fs ← j.fields?
  let kind ← fs.required? "kind" NodeKind.ofJson?
  let file ← fs.required? "file" text?
  let name ← fs.optional? "name" text?
  let line ← fs.default? "line" 0 word?
  let character ← fs.default? "character" 0 word?
  let modifiers ← fs.default? "modifiers" {} Modifiers.ofJson?
  let text ← fs.optional? "text" text?
  let docComment ← fs.optional? "doc_comment" text?
  return { kind, file := ⟨file⟩, name, line, character, modifiers, text, docComment }

end NodeInfo

namespace TupleMember

/-- An element of a tuple type as an object. -/
def toJson (m : TupleMember) : Json :=
  object (
    always "ty" m.ty.toJson ++
    always "name" (orNull string m.name) ++
    always "optional" (bool m.optional) ++
    always "rest" (bool m.rest))

/-- Reads an element of a tuple type. -/
def ofJson? (j : Json) : Option TupleMember := do
  let fs ← j.fields?
  let ty ← fs.required? "ty" TypeId.ofJson?
  let name ← fs.optional? "name" text?
  let optional ← fs.default? "optional" false bool?
  let rest ← fs.default? "rest" false bool?
  return { ty, name, optional, rest }

end TupleMember

namespace TypeForm

/-- A type as a field. -/
def typeField (key : String) (t : TypeId) : Fields := always key t.toJson

/-- A type that may be missing, as a field. -/
def optionalField (key : String) (t : Option TypeId) : Fields := always key (orNull TypeId.toJson t)

/-- A form as a value. -/
def toJson : TypeForm → Json
  | intrinsic kind => .object [("Intrinsic", kind.toJson)]
  | stringLiteral value => .object [("StringLiteral", string value)]
  | numberLiteral value => .object [("NumberLiteral", number (.real value))]
  | bigintLiteral digits => .object [("BigIntLiteral", string digits)]
  | union members => .object [("Union", arrayOf TypeId.toJson members)]
  | intersection members => .object [("Intersection", arrayOf TypeId.toJson members)]
  | object => string "Object"
  | array element => .object [("Array", element.toJson)]
  | tuple members => .object [("Tuple", arrayOf TupleMember.toJson members)]
  | typeParameter => string "TypeParameter"
  | mapped key constraint value nameType readonly optional =>
    formWith "Mapped" (
      typeField "type_parameter" key ++
      optionalField "constraint" constraint ++
      optionalField "template" value ++
      optionalField "name_type" nameType ++
      always "readonly" (orNull MappedModifier.toJson readonly) ++
      always "optional" (orNull MappedModifier.toJson optional))
  | conditional check bound whenTrue whenFalse =>
    formWith "Conditional" (
      typeField "check" check ++
      typeField "extends" bound ++
      typeField "true_type" whenTrue ++
      typeField "false_type" whenFalse)
  | indexedAccess container index =>
    formWith "IndexedAccess" (typeField "object" container ++ typeField "index" index)
  | keyOf target => .object [("Index", target.toJson)]
  | operator op target =>
    formWith "Operator" (always "operator" op.toJson ++ typeField "target" target)
  | template texts types =>
    formWith "TemplateLiteral" (
      always "texts" (ofStrings texts) ++
      always "types" (arrayOf TypeId.toJson types))
  | stringMapping name target =>
    formWith "StringMapping" (always "name" (string name) ++ typeField "target" target)
  | unrecognized => string "Unrecognized"

/-- The forms without content, by name. -/
def plain : List (String × TypeForm) :=
  [("Object", object), ("TypeParameter", typeParameter), ("Unrecognized", unrecognized)]

/-- Reads the fields of the named form. -/
def ofFields? (fs : Fields) : String → Option TypeForm
  | "Mapped" => do
    let key ← fs.required? "type_parameter" TypeId.ofJson?
    let constraint ← fs.optional? "constraint" TypeId.ofJson?
    let value ← fs.optional? "template" TypeId.ofJson?
    let nameType ← fs.optional? "name_type" TypeId.ofJson?
    let readonly ← fs.optional? "readonly" (MappedModifier.ofJson? .strict)
    let optional ← fs.optional? "optional" (MappedModifier.ofJson? .strict)
    return mapped key constraint value nameType readonly optional
  | "Conditional" => do
    let check ← fs.required? "check" TypeId.ofJson?
    let bound ← fs.required? "extends" TypeId.ofJson?
    let whenTrue ← fs.required? "true_type" TypeId.ofJson?
    let whenFalse ← fs.required? "false_type" TypeId.ofJson?
    return conditional check bound whenTrue whenFalse
  | "IndexedAccess" => do
    let container ← fs.required? "object" TypeId.ofJson?
    let index ← fs.required? "index" TypeId.ofJson?
    return indexedAccess container index
  | "Operator" => do
    let op ← fs.required? "operator" (TypeOperator.ofJson? .strict)
    let target ← fs.required? "target" TypeId.ofJson?
    return operator op target
  | "TemplateLiteral" => do
    let texts ← fs.required? "texts" (listOf? text?)
    let types ← fs.required? "types" (listOf? TypeId.ofJson?)
    return template texts types
  | "StringMapping" => do
    let name ← fs.required? "name" text?
    let target ← fs.required? "target" TypeId.ofJson?
    return stringMapping name target
  | _ => none

/-- Reads the content of the named form. -/
def ofContent? (content : Json) : String → Option TypeForm
  | "Intrinsic" => (Intrinsic.ofJson? content).map intrinsic
  | "StringLiteral" => content.text?.map stringLiteral
  | "NumberLiteral" => content.real?.map numberLiteral
  | "BigIntLiteral" => content.text?.map bigintLiteral
  | "Union" => (listOf? TypeId.ofJson? content).map union
  | "Intersection" => (listOf? TypeId.ofJson? content).map intersection
  | "Array" => (TypeId.ofJson? content).map array
  | "Tuple" => (listOf? TupleMember.ofJson? content).map tuple
  | "Index" => (TypeId.ofJson? content).map keyOf
  | name => content.fields?.bind fun fs => ofFields? fs name

/-- Reads a form. -/
def ofJson? (j : Json) : Option TypeForm :=
  match (j.variant? .strict).bind (named? plain) with
  | some form => some form
  | none => j.tagged?.bind fun (name, content) => ofContent? content name

end TypeForm

namespace AliasInstance

/-- A named type with its arguments, as an object. -/
def toJson (a : AliasInstance) : Json :=
  object (
    always "symbol" a.symbol.toJson ++
    always "type_arguments" (arrayOf TypeId.toJson a.arguments))

/-- Reads a named type with its arguments. -/
def ofJson? (j : Json) : Option AliasInstance := do
  let fs ← j.fields?
  let symbol ← fs.required? "symbol" SymbolId.ofJson?
  let arguments ← fs.default? "type_arguments" [] (listOf? TypeId.ofJson?)
  return { symbol, arguments }

end AliasInstance

namespace TypeInfo

/-- A type as an object. -/
def toJson (t : TypeInfo) : Json :=
  object (
    always "shape" t.form.toJson ++
    always "symbol" (orNull SymbolId.toJson t.symbol) ++
    always "alias" (orNull AliasInstance.toJson t.writtenAs))

/-- Reads a type. -/
def ofJson? (j : Json) : Option TypeInfo := do
  let fs ← j.fields?
  let form ← fs.required? "shape" TypeForm.ofJson?
  let symbol ← fs.optional? "symbol" SymbolId.ofJson?
  let writtenAs ← fs.optional? "alias" AliasInstance.ofJson?
  return { form, symbol, writtenAs }

end TypeInfo

namespace SignatureInfo

/-- A signature as an object. -/
def toJson (s : SignatureInfo) : Json :=
  object (
    always "declaration" (orNull NodeId.toJson s.declaration) ++
    always "type_parameters" (arrayOf TypeId.toJson s.typeParameters) ++
    always "parameters" (arrayOf SymbolId.toJson s.parameters) ++
    always "return_type" s.returnType.toJson)

/-- Reads a signature. -/
def ofJson? (j : Json) : Option SignatureInfo := do
  let fs ← j.fields?
  let declaration ← fs.optional? "declaration" NodeId.ofJson?
  let typeParameters ← fs.default? "type_parameters" [] (listOf? TypeId.ofJson?)
  let parameters ← fs.default? "parameters" [] (listOf? SymbolId.ofJson?)
  let returnType ← fs.required? "return_type" TypeId.ofJson?
  return { declaration, typeParameters, parameters, returnType }

end SignatureInfo

namespace WildcardExport

/-- An export of every name, as an object. -/
def toJson (w : WildcardExport) : Json :=
  object (always "target" w.target.toJson ++ always "namespace" (orNull string w.spaceName))

/-- Reads an export of every name. -/
def ofJson? (j : Json) : Option WildcardExport := do
  let fs ← j.fields?
  let target ← fs.required? "target" SymbolId.ofJson?
  let spaceName ← fs.optional? "namespace" text?
  return { target, spaceName }

end WildcardExport

namespace SymbolRecord

/-- The record of a symbol as an object. -/
def toJson (r : SymbolRecord) : Json :=
  object (
    always "info" r.info.toJson ++
    always "aliased" (orNull SymbolId.toJson r.aliased) ++
    always "exports" (arrayOf SymbolId.toJson r.exports) ++
    always "wildcard_exports" (arrayOf WildcardExport.toJson r.wildcardExports) ++
    always "declared_type" (orNull TypeId.toJson r.declaredType) ++
    always "value_type" (orNull TypeId.toJson r.valueType))

/-- Reads the record of a symbol. -/
def ofJson? (j : Json) : Option SymbolRecord := do
  let fs ← j.fields?
  let info ← fs.required? "info" SymbolInfo.ofJson?
  let aliased ← fs.optional? "aliased" SymbolId.ofJson?
  let exports ← fs.default? "exports" [] (listOf? SymbolId.ofJson?)
  let wildcardExports ← fs.default? "wildcard_exports" [] (listOf? WildcardExport.ofJson?)
  let declaredType ← fs.optional? "declared_type" TypeId.ofJson?
  let valueType ← fs.optional? "value_type" TypeId.ofJson?
  return { info, aliased, exports, wildcardExports, declaredType, valueType }

end SymbolRecord

namespace TypeRecord

/-- The record of a type as an object. -/
def toJson (r : TypeRecord) : Json :=
  object (
    always "info" r.info.toJson ++
    always "text" (orNull string r.text) ++
    always "type_arguments" (arrayOf TypeId.toJson r.arguments) ++
    always "call_signatures" (arrayOf SignatureInfo.toJson r.callSignatures) ++
    always "construct_signatures" (arrayOf SignatureInfo.toJson r.constructSignatures) ++
    always "properties" (arrayOf SymbolId.toJson r.properties) ++
    always "string_index" (orNull TypeId.toJson r.stringIndex) ++
    always "number_index" (orNull TypeId.toJson r.numberIndex))

/-- Reads the record of a type. -/
def ofJson? (j : Json) : Option TypeRecord := do
  let fs ← j.fields?
  let info ← fs.required? "info" TypeInfo.ofJson?
  let text ← fs.optional? "text" text?
  let arguments ← fs.default? "type_arguments" [] (listOf? TypeId.ofJson?)
  let callSignatures ← fs.default? "call_signatures" [] (listOf? SignatureInfo.ofJson?)
  let constructSignatures ← fs.default? "construct_signatures" [] (listOf? SignatureInfo.ofJson?)
  let properties ← fs.default? "properties" [] (listOf? SymbolId.ofJson?)
  let stringIndex ← fs.optional? "string_index" TypeId.ofJson?
  let numberIndex ← fs.optional? "number_index" TypeId.ofJson?
  return {
    info, text, arguments, callSignatures, constructSignatures, properties, stringIndex,
    numberIndex }

end TypeRecord

namespace Program

/-- An entry of the list of intrinsic types, as a pair. -/
def intrinsicToJson (e : Intrinsic × TypeId) : Json := array [e.1.toJson, e.2.toJson]

/-- Reads an entry of the list of intrinsic types. -/
def intrinsicOfJson? : Json → Option (Intrinsic × TypeId)
  | array [kind, ty] => do return (← Intrinsic.ofJson? kind, ← TypeId.ofJson? ty)
  | _ => none

/-- Reads a set of paths. Of two spellings of a path, the first is kept. -/
def pathsOfJson? (j : Json) : Option (Table Path Unit) :=
  (listOf? text? j).map fun ps => Table.ofList (ps.map fun p => (⟨p⟩, ()))

/-- A program as an object. -/
def toJson (p : Program) : Json :=
  object (
    always "symbols" (arrayOf SymbolRecord.toJson p.symbols.toList) ++
    always "nodes" (arrayOf NodeInfo.toJson p.nodes.toList) ++
    always "types" (arrayOf TypeRecord.toJson p.types.toList) ++
    always "files" (p.files.toJson Path.text SymbolId.toJson) ++
    always "default_library" (ofStrings (p.defaultLibrary.keys.map (·.text))) ++
    always "intrinsics" (arrayOf intrinsicToJson p.intrinsics) ++
    always "node_types" (p.nodeTypes.toJson NodeId.toKey TypeId.toJson))

/-- Reads a program. -/
def ofJson? (j : Json) : Option Program := do
  let fs ← j.fields?
  let symbols ← fs.default? "symbols" [] (listOf? SymbolRecord.ofJson?)
  let nodes ← fs.default? "nodes" [] (listOf? NodeInfo.ofJson?)
  let types ← fs.default? "types" [] (listOf? TypeRecord.ofJson?)
  let files ← fs.default? "files" ∅ (Table.ofJson? (some ⟨·.text⟩) SymbolId.ofJson?)
  let defaultLibrary ← fs.default? "default_library" ∅ pathsOfJson?
  let intrinsics ← fs.default? "intrinsics" [] (listOf? intrinsicOfJson?)
  let nodeTypes ← fs.default? "node_types" ∅ (Table.ofJson? NodeId.ofKey? TypeId.ofJson?)
  return {
    symbols := symbols.toArray, nodes := nodes.toArray, types := types.toArray, files,
    defaultLibrary, intrinsics, nodeTypes }

/-- A program as an indented text. -/
def snapshot (p : Program) : String := p.toJson.indented

/-- Reads a program from a text. -/
def ofSnapshot? (text : String) : Option Program := (Json.parse? text).bind ofJson?

end Program

end DocModel
