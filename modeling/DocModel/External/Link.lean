import DocModel.External.Origin
import DocModel.Reference.Basic

/-!
# Links to external documentation

A declaration outside the analysed sources is not documented here; it gets a link to where it is. A
chain of resolvers is asked for the link one after the other, and the first that knows one answers.

## Main definitions

* `ExternalSymbol`: What a resolver is told.
* `Resolver`, `Resolver.first?`: A resolver, and the answer of a chain of them.
* `LinkTemplate.resolver`: Links by a template for one package.
* `builtinResolver`: Links to the reference pages of the language and of the web platform.
-/

namespace DocModel

/-- An external declaration that a link is sought for. -/
structure ExternalSymbol where
  name : String
  kind : ReferenceKind
  origin : Origin
deriving DecidableEq, Inhabited

/-- Something that may know a link. -/
abbrev Resolver := ExternalSymbol → Option String

/-- The first link that a chain of resolvers knows. -/
def Resolver.first? (chain : List Resolver) (s : ExternalSymbol) : Option String :=
  chain.findSome? (· s)

/-- How links into the documentation of a package are made. -/
structure LinkTemplate where
  library : String
  /-- The link, with places for the name, the kind and the path of a declaration. -/
  url : String
deriving DecidableEq, Inhabited

namespace LinkTemplate

/-- The place of a declaration's name in a template. -/
def namePlace : String := "\x7bname\x7d"

/-- The place of a declaration's kind in a template. -/
def kindPlace : String := "\x7bkind\x7d"

/-- The place of a declaration's path in a template. -/
def pathPlace : String := "\x7bpath\x7d"

/-- Puts a value into its places in a text. -/
def fill (place value : String) (text : List Char) : List Char :=
  Text.replaceAll place.toList value.toList text

/-- The link of a declaration: the name is put in first, then the kind, then the path. -/
def link (t : LinkTemplate) (s : ExternalSymbol) : String :=
  String.ofList (
    fill pathPlace (Text.joinWith "/" s.origin.path) (
      fill kindPlace s.kind.text (
        fill namePlace s.name t.url.toList)))

/-- Links the declarations of the template's package. -/
def resolver (t : LinkTemplate) : Resolver := fun s =>
  if s.origin.library = some t.library then some (t.link s) else none

end LinkTemplate

/-- Objects of the language that have a reference page. -/
def globalObjects : List String :=
  ["AggregateError", "Array", "ArrayBuffer", "AsyncGenerator", "AsyncIterator", "BigInt",
   "BigInt64Array", "BigUint64Array", "Boolean", "DataView", "Date", "Error", "EvalError",
   "FinalizationRegistry", "Float32Array", "Float64Array", "Function", "Generator", "Int16Array",
   "Int32Array", "Int8Array", "Intl", "Iterator", "JSON", "Map", "Math", "Number", "Object",
   "Promise", "Proxy", "RangeError", "ReferenceError", "Reflect", "RegExp", "Set",
   "SharedArrayBuffer", "String", "Symbol", "SyntaxError", "TypeError", "URIError", "Uint16Array",
   "Uint32Array", "Uint8Array", "Uint8ClampedArray", "WeakMap", "WeakRef", "WeakSet"]

/-- Interfaces of the web platform that have a reference page. -/
def webInterfaces : List String :=
  ["AbortController", "AbortSignal", "Blob", "Document", "Element", "Event", "EventTarget", "File",
   "FormData", "Headers", "HTMLElement", "Node", "ReadableStream", "Request", "Response",
   "TextDecoder", "TextEncoder", "URL", "URLSearchParams", "WebSocket", "Window", "WritableStream"]

/-- Types of the language's library that the handbook describes. -/
def utilityTypes : List String :=
  ["Awaited", "ConstructorParameters", "Exclude", "Extract", "InstanceType", "NoInfer",
   "NonNullable", "Omit", "OmitThisParameter", "Parameters", "Partial", "Pick", "Readonly",
   "Record", "Required", "ReturnType", "ThisParameterType", "ThisType"]

/-- The page of an object of the language. -/
def globalObjectPage (name : String) : String :=
  "https://developer.mozilla.org/en-US/docs/Web/JavaScript/Reference/Global_Objects/" ++ name

/-- The page of an interface of the web platform. -/
def webInterfacePage (name : String) : String :=
  "https://developer.mozilla.org/en-US/docs/Web/API/" ++ name

/-- The section of the handbook on a utility type. Utility types have names in plain letters. -/
def utilityTypePage (name : String) : String :=
  "https://www.typescriptlang.org/docs/handbook/utility-types.html#" ++
    String.ofList (name.toList.map Char.toLower)

/-- Links what belongs to the library of the language. -/
def builtinResolver : Resolver := fun s =>
  if s.origin.library.isSome then none
  else if s.name ∈ globalObjects then some (globalObjectPage s.name)
  else if s.name = "ReadonlyArray" then some (globalObjectPage "Array")
  else if s.name ∈ webInterfaces then some (webInterfacePage s.name)
  else if s.name ∈ utilityTypes then some (utilityTypePage s.name)
  else none

end DocModel
