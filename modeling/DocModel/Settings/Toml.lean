import DocModel.Settings.Basic
import DocModel.Toml.Reader

/-!
# Settings in TOML

Settings are kept in the table `docgen` of a document. What is not set there has its usual value,
and what is not known is skipped.

## Main definitions

* `Settings.ofToml?`: Reading the text of a document.
-/

namespace DocModel

namespace Toml

/-- The text of a string. -/
def text? : Toml → Option String
  | string value => some value
  | _ => none

/-- A truth value. -/
def bool? : Toml → Option Bool
  | boolean value => some value
  | _ => none

/-- An integer that is not negative. -/
def count? : Toml → Option Nat
  | integer value => if 0 ≤ value then some value.toNat else none
  | _ => none

/-- The items of an array, read one by one. Tables that were opened under one header are an array of
    tables. -/
def listOf? {α : Type} (read : Toml → Option α) : Toml → Option (List α)
  | array items => items.mapM read
  | tables elements => elements.mapM fun es => read (table .header es)
  | _ => none

/-- The entries of a record. A date or a time is a record without entries of its own. -/
def record? : Toml → Option Entries
  | table _ entries => some entries
  | moment _ => some []
  | _ => none

namespace Entries

variable {α : Type}

/-- Reads an entry that must be there. -/
def required? (es : Entries) (key : String) (read : Toml → Option α) : Option α :=
  (es.get? key).bind read

/-- Reads an entry that stands for `fallback` where it is missing. -/
def default? (es : Entries) (key : String) (fallback : α) (read : Toml → Option α) : Option α :=
  match es.get? key with
  | some v => read v
  | none => some fallback

end Entries

end Toml

/-- Reads how links are made. -/
def LinkTemplate.ofToml? (v : Toml) : Option LinkTemplate := do
  let es ← v.record?
  let library ← es.required? "library" Toml.text?
  let url ← es.required? "url" Toml.text?
  return { library, url }

namespace Settings

/-- Reads the entries of the table of settings. -/
def ofEntries? (es : Toml.Entries) : Option Settings := do
  let usual : Settings := {}
  let passthroughModules ←
    es.default? "passthrough_modules" usual.passthroughModules (Toml.listOf? Toml.text?)
  let maxConstantTextLength ←
    es.default? "max_constant_text_length" usual.maxConstantTextLength Toml.count?
  let maxTypeDepth ← es.default? "max_type_depth" usual.maxTypeDepth Toml.count?
  let exclude ← es.default? "exclude" usual.exclude (Toml.listOf? Toml.text?)
  let builtinLinks ← es.default? "builtin_links" usual.builtinLinks Toml.bool?
  let externals ← es.default? "externals" usual.externals (Toml.listOf? LinkTemplate.ofToml?)
  return {
    passthroughModules, maxConstantTextLength, maxTypeDepth, exclude, builtinLinks, externals }

/-- Reads settings from the text of a document. -/
def ofToml? (text : String) : Option Settings := do
  let es ← Toml.parse? text
  es.default? "docgen" {} fun v => v.record?.bind ofEntries?

end Settings

end DocModel
