import DocModel.Path
import DocModel.Text.Search

/-!
# Origins of external declarations

A file outside the analysed sources belongs to a package, or to the library of the language. The
package is told by the path: it is what follows the last `node_modules` segment, two segments for a
package in a scope. A package that only declares types for another one counts as the other one.

## Main definitions

* `Origin`: The package and the place inside it.
* `Origin.ofFile`: The origin of a file.
-/

namespace DocModel

/-- Where an external declaration comes from. -/
structure Origin where
  /-- The package; none for the library of the language. -/
  library : Option String
  /-- The place inside the package, without the extension of the file. -/
  path : List String
deriving DecidableEq, Inhabited

namespace Origin

/-- The library of the language. -/
def builtin : Origin := { library := none, path := [] }

/-- The name of the directory that holds packages. -/
def packageDirectory : String := "node_modules"

/-- What follows the last package directory. -/
def belowPackages? (names : List String) : Option (List String) :=
  if packageDirectory ∈ names then
    some (names.reverse.takeWhile (· != packageDirectory)).reverse
  else none

/-- The endings that are taken off the name of a source file, first match first. -/
def sourceEndings : List String :=
  [".d.ts", ".d.mts", ".d.cts", ".tsx", ".ts", ".mjs", ".cjs", ".js"]

/-- The name of a source file without its ending. -/
def sourceStem (name : String) : String :=
  (sourceEndings.findSome? (Text.stripSuffix? name)).getD name

/-- The package that a package is about: `node` for `@types/node`, and `@babel/core` for
    `@types/babel__core`. -/
def describedPackage (package : String) : String :=
  match Text.stripStart? package "@types/" with
  | some name =>
    match Text.splitOnce? "__".toList name.toList with
    | some (scope, rest) => "@" ++ String.ofList scope ++ "/" ++ String.ofList rest
    | none => name
  | none => package

/-- Whether a name is that of a scope. -/
def isScope (name : String) : Bool := name.toList.head? == some '@'

/-- The package and the place inside it, as written. -/
def splitPackage? : List String → Option (String × List String)
  | [] => none
  | [name] => some (name, [])
  | name :: next :: below =>
    if isScope name then some (name ++ "/" ++ next, below) else some (name, next :: below)

/-- The place inside a package; the file that stands for its directory is left out. -/
def placeOf (below : List String) : List String :=
  match below.getLast? with
  | none => []
  | some name =>
    let stem := sourceStem name
    below.dropLast ++ (if stem = "index" then [] else [stem])

/-- The origin of a file. -/
def ofFile (file : Path) (isDefaultLibrary : Bool) : Origin :=
  if isDefaultLibrary then builtin
  else
    match (belowPackages? file.names).bind splitPackage? with
    | none => builtin
    | some (package, below) => { library := some (describedPackage package), path := placeOf below }

end Origin

end DocModel
