import DocModel.Declaration.Json
import DocModel.Module.Basic

/-!
# Modules as JSON

A module is an object that always has its lists and tables, even where they are empty. Tables are
objects whose keys are the keys of the table.

## Main definitions

* `Module.toJson`, `Module.ofJson?`: Writing and reading modules.
-/

namespace DocModel

open Json

namespace Table

variable {κ ν : Type} [Ord κ]

/-- A table as an object. -/
def toJson (key : κ → String) (value : ν → Json) (t : Table κ ν) : Json :=
  object (t.entries.map fun e => (key e.1, value e.2))

/-- Reads a table. Of two entries under one key, the later one counts. -/
def ofJson? [Std.TransOrd κ] (key : Key → Option κ) (value : Json → Option ν) (j : Json) :
    Option (Table κ ν) := do
  let fs ← j.fields?
  let entries ← fs.mapM fun (k, v) => do return (← key k, ← value v)
  return ofList entries

end Table

namespace NamespaceInfo

/-- What is known of a namespace, as an object. -/
def toJson (n : NamespaceInfo) : Json :=
  object (always "loc" n.loc.toJson ++ present "jsdoc" (n.doc.map (·.toJson)))

/-- Reads what is known of a namespace. -/
def ofJson? (j : Json) : Option NamespaceInfo := do
  let fs ← j.fields?
  let loc ← fs.required? "loc" Loc.ofJson?
  let doc ← fs.optional? "jsdoc" DocComment.ofJson?
  return { loc, doc }

end NamespaceInfo

namespace Module

/-- A module as an object. -/
def toJson (m : Module) : Json :=
  object (
    always "name" (string m.name) ++
    always "path" (ofStrings m.path) ++
    always "children_path" (ofStrings m.childrenPath) ++
    always "base_dir" (string m.baseDir.text) ++
    present "namespace" (m.namespaceInfo.map (·.toJson)) ++
    always "modules" (m.modules.toJson id (ofNat ·.index)) ++
    always "classes" (array (m.classes.map (object ·.toFields))) ++
    always "interfaces" (array (m.interfaces.map (object ·.toFields))) ++
    always "enums" (array (m.enums.map (object ·.toFields))) ++
    always "types" (array (m.types.map (object ·.toFields))) ++
    always "functions" (array (m.functions.map (object ·.toFields))) ++
    always "constants" (array (m.constants.map (object ·.toFields))) ++
    always "exports" (m.exports.toJson id (·.toJson)))

/-- Reads a list of records from their fields. -/
def recordsOf? {α : Type} (read : Fields → Option α) : Json → Option (List α) :=
  listOf? fun j => j.fields?.bind read

/-- Reads a module. -/
def ofJson? (j : Json) : Option Module := do
  let fs ← j.fields?
  let name ← fs.required? "name" text?
  let path ← fs.required? "path" (listOf? text?)
  let childrenPath ← fs.required? "children_path" (listOf? text?)
  let baseDir ← fs.required? "base_dir" text?
  let namespaceInfo ← fs.optional? "namespace" NamespaceInfo.ofJson?
  let modules ← fs.default? "modules" ∅
    (Table.ofJson? (some ·.text) (Option.map ModuleId.mk ·.word?))
  let classes ← fs.default? "classes" [] (recordsOf? (ClassDeclaration.ofFields? .strict))
  let interfaces ← fs.default? "interfaces" [] (recordsOf? (InterfaceDeclaration.ofFields? .strict))
  let enums ← fs.default? "enums" [] (recordsOf? (EnumDeclaration.ofFields? .strict))
  let types ← fs.default? "types" [] (recordsOf? (AliasDeclaration.ofFields? .strict))
  let functions ← fs.default? "functions" [] (recordsOf? (FunctionDeclaration.ofFields? .strict))
  let constants ← fs.default? "constants" [] (recordsOf? (ConstantDeclaration.ofFields? .strict))
  let exports ← fs.default? "exports" ∅ (Table.ofJson? (some ·.text) FileExports.ofJson?)
  return {
    name, path, childrenPath, baseDir := ⟨baseDir⟩, namespaceInfo, modules, classes, interfaces,
    enums, types, functions, constants, exports }

end Module

end DocModel
