import DocModel.Declaration.Basic
import DocModel.Ty.Json

/-!
# Declarations as JSON

A declaration is an object that holds its heading, then what its sort adds. A declaration of any
sort has a field `kind` with the name of the sort besides, which makes it a tagged value; the single
sorts are read strictly where they stand by themselves.

## Main definitions

* `Declaration.toJson`, `Declaration.ofJson?`: Writing and reading declarations.
* `ClassDeclaration.toFields`, `ClassDeclaration.ofFields?` and others: The single sorts.
-/

namespace DocModel

open Json

/-- The fields of type parameters, left out where there are none. -/
def typeParameterFields (ps : List (TypeParameter Ty)) : Fields :=
  nonempty "type_parameters" (ps.map fun p => (p.map Ty.toJson).toJson)

/-- Reads type parameters. -/
def typeParametersOf? (reading : Reading) (fs : Fields) : Option (List (TypeParameter Ty)) :=
  fs.default? "type_parameters" [] (listOf? (TypeParameter.ofJson? (Ty.ofJson? reading)))

namespace Heading

/-- The fields of a heading. -/
def toFields (h : Heading) : Fields :=
  always "name" (string h.name) ++
  always "loc" h.loc.toJson ++
  present "jsdoc" (h.doc.map (·.toJson)) ++
  flag "is_exported" h.isExported

/-- Reads a heading. -/
def ofFields? (fs : Fields) : Option Heading := do
  let name ← fs.required? "name" text?
  let loc ← fs.required? "loc" Loc.ofJson?
  let doc ← fs.optional? "jsdoc" DocComment.ofJson?
  let isExported ← fs.default? "is_exported" false bool?
  return { name, loc, doc, isExported }

end Heading

namespace ClassDeclaration

/-- The fields of a class. -/
def toFields (d : ClassDeclaration) : Fields :=
  d.toHeading.toFields ++
  flag "is_default" d.isDefault ++
  flag "is_abstract" d.isAbstract ++
  typeParameterFields d.typeParameters ++
  nonempty "extends" (d.bases.map (·.toJson)) ++
  nonempty "implements" (d.interfaces.map (·.toJson)) ++
  always "members" (d.members.map Ty.toJson).toJson

/-- Reads the fields of a class. -/
def ofFields? (reading : Reading) (fs : Fields) : Option ClassDeclaration := do
  let heading ← Heading.ofFields? fs
  let isDefault ← fs.default? "is_default" false bool?
  let isAbstract ← fs.default? "is_abstract" false bool?
  let typeParameters ← typeParametersOf? reading fs
  let bases ← fs.default? "extends" [] (listOf? (Ty.ofJson? reading))
  let interfaces ← fs.default? "implements" [] (listOf? (Ty.ofJson? reading))
  let members ← fs.required? "members" (ObjectLiteral.ofJson? reading (Ty.ofJson? reading))
  return { heading with isDefault, isAbstract, typeParameters, bases, interfaces, members }

end ClassDeclaration

namespace InterfaceDeclaration

/-- The fields of an interface. -/
def toFields (d : InterfaceDeclaration) : Fields :=
  d.toHeading.toFields ++
  flag "is_default" d.isDefault ++
  typeParameterFields d.typeParameters ++
  nonempty "extends" (d.bases.map (·.toJson)) ++
  always "members" (d.members.map Ty.toJson).toJson

/-- Reads the fields of an interface. -/
def ofFields? (reading : Reading) (fs : Fields) : Option InterfaceDeclaration := do
  let heading ← Heading.ofFields? fs
  let isDefault ← fs.default? "is_default" false bool?
  let typeParameters ← typeParametersOf? reading fs
  let bases ← fs.default? "extends" [] (listOf? (Ty.ofJson? reading))
  let members ← fs.required? "members" (ObjectLiteral.ofJson? reading (Ty.ofJson? reading))
  return { heading with isDefault, typeParameters, bases, members }

end InterfaceDeclaration

namespace EnumMember

/-- A member of an enumeration as an object. -/
def toJson (m : EnumMember) : Json :=
  object (
    always "name" (string m.name) ++
    present "initializer" (m.initializer.map (·.toJson)) ++
    always "loc" m.loc.toJson ++
    present "jsdoc" (m.doc.map (·.toJson)))

/-- Reads a member of an enumeration. -/
def ofJson? (reading : Reading) (j : Json) : Option EnumMember := do
  let fs ← j.fields?
  let name ← fs.required? "name" text?
  let initializer ← fs.optional? "initializer" (Ty.ofJson? reading)
  let loc ← fs.required? "loc" Loc.ofJson?
  let doc ← fs.optional? "jsdoc" DocComment.ofJson?
  return { name, initializer, loc, doc }

end EnumMember

namespace EnumDeclaration

/-- The fields of an enumeration. -/
def toFields (d : EnumDeclaration) : Fields :=
  d.toHeading.toFields ++
  flag "is_const" d.isConst ++
  always "members" (array (d.members.map (·.toJson)))

/-- Reads the fields of an enumeration. -/
def ofFields? (reading : Reading) (fs : Fields) : Option EnumDeclaration := do
  let heading ← Heading.ofFields? fs
  let isConst ← fs.default? "is_const" false bool?
  let members ← fs.required? "members" (listOf? (EnumMember.ofJson? reading))
  return { heading with isConst, members }

end EnumDeclaration

namespace FunctionDeclaration

/-- The fields of a function. -/
def toFields (d : FunctionDeclaration) : Fields :=
  d.toHeading.toFields ++
  flag "is_default" d.isDefault ++
  flag "is_async" d.isAsync ++
  always "signatures" (array (d.signatures.map fun s => (s.map Ty.toJson).toJson))

/-- Reads the fields of a function. -/
def ofFields? (reading : Reading) (fs : Fields) : Option FunctionDeclaration := do
  let heading ← Heading.ofFields? fs
  let isDefault ← fs.default? "is_default" false bool?
  let isAsync ← fs.default? "is_async" false bool?
  let signatures ← fs.required? "signatures" (listOf? (Signature.ofJson? (Ty.ofJson? reading)))
  return { heading with isDefault, isAsync, signatures }

end FunctionDeclaration

namespace ConstantDeclaration

/-- The fields of a constant. -/
def toFields (d : ConstantDeclaration) : Fields :=
  d.toHeading.toFields ++
  present "ty" (d.ty.map (·.toJson)) ++
  present "content" (d.content.map string)

/-- Reads the fields of a constant. -/
def ofFields? (reading : Reading) (fs : Fields) : Option ConstantDeclaration := do
  let heading ← Heading.ofFields? fs
  let ty ← fs.optional? "ty" (Ty.ofJson? reading)
  let content ← fs.optional? "content" text?
  return { heading with ty, content }

end ConstantDeclaration

namespace AliasDeclaration

/-- The fields of a named type. -/
def toFields (d : AliasDeclaration) : Fields :=
  d.toHeading.toFields ++
  typeParameterFields d.typeParameters ++
  always "value" d.value.toJson

/-- Reads the fields of a named type. -/
def ofFields? (reading : Reading) (fs : Fields) : Option AliasDeclaration := do
  let heading ← Heading.ofFields? fs
  let typeParameters ← typeParametersOf? reading fs
  let value ← fs.required? "value" (Ty.ofJson? reading)
  return { heading with typeParameters, value }

end AliasDeclaration

namespace Declaration

/-- The fields that stand behind the name of the sort. -/
def toFields : Declaration → Fields
  | classType body => body.toFields
  | interface body => body.toFields
  | enum body => body.toFields
  | function body => body.toFields
  | constant body => body.toFields
  | typeAlias body => body.toFields

/-- A declaration as an object. -/
def toJson (d : Declaration) : Json := object (always "kind" (string d.kindName) ++ d.toFields)

/-- Reads the fields of a declaration of the named sort, leniently. -/
def ofFields? (fs : Fields) : String → Option Declaration
  | "class" => (ClassDeclaration.ofFields? .lenient fs).map classType
  | "interface" => (InterfaceDeclaration.ofFields? .lenient fs).map interface
  | "enum" => (EnumDeclaration.ofFields? .lenient fs).map enum
  | "function" => (FunctionDeclaration.ofFields? .lenient fs).map function
  | "constant" => (ConstantDeclaration.ofFields? .lenient fs).map constant
  | "type_alias" => (AliasDeclaration.ofFields? .lenient fs).map typeAlias
  | _ => none

/-- Reads a declaration. -/
def ofJson? (j : Json) : Option Declaration := do
  let fs ← j.fields?
  let kind ← fs.required? "kind" text?
  ofFields? fs kind

end Declaration

end DocModel
