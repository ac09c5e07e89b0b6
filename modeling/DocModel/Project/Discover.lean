import DocModel.FileTable
import DocModel.Project.Spec
import DocModel.Text.Search

/-!
# Finding projects

A project is a directory with a configuration file. Its package manifest, if it can be read, gives
its name and hints where it is entered; otherwise it is named after the directory, and entered by an
index file.

## Main definitions

* `FileTable.locateEntry?`: The entry file of a project.
* `FileTable.packageMetadata?`: The metadata in a package manifest.
* `FileTable.discover`: A project by its root.
-/

namespace DocModel

namespace FileTable

variable (t : FileTable)

/-- The first of some paths that leads to a file. -/
def firstFile? (paths : List Path) : Option Path := paths.find? t.isFile

/-- The index file of a directory. -/
def findIndex? (dir : Path) : Option Path :=
  t.firstFile? (["index.ts", "index.tsx", "index.d.ts"].map fun name => dir.join ⟨name⟩)

/-- Whether a name is that of a source file with types. -/
def isTyped (name : String) : Bool := Text.endsWith name ".ts" || Text.endsWith name ".tsx"

/-- The name of a compiled file without its ending. -/
def compiledStem? (name : String) : Option String :=
  [".mjs", ".cjs", ".js"].findSome? (Text.stripSuffix? name)

/-- The file that a hint points to. For a compiled file it is the source, or the file that declares
    its types. -/
def hintedFile? (root : Path) (hint : String) : Option Path := do
  let path := root.join (Path.dropHere ⟨hint⟩)
  let name ← path.fileName?
  if isTyped name then t.firstFile? [path]
  else
    let stem ← compiledStem? name
    t.firstFile? ([".ts", ".tsx", ".d.ts"].map fun ending => path.withFileName (stem ++ ending))

/-- The entry file of a project: where hints point to, else an index file in the root, in `src` or
    in `lib`. -/
def locateEntry? (root : Path) (hints : List String) : Option Path :=
  (hints.findSome? (t.hintedFile? root)).or
    ([root, root.join ⟨"src"⟩, root.join ⟨"lib"⟩].findSome? t.findIndex?)

/-- The metadata in a package manifest. -/
def packageMetadata? (path : Path) : Option PackageMetadata :=
  (t.read? path).bind PackageMetadata.ofManifest?

/-- The project with the given root. A manifest that is missing or cannot be read is passed over. -/
def discover (root : Path) : Except ProjectError ProjectSpec :=
  if t.isFile (root.join ⟨"tsconfig.json"⟩) then
    let metadata := (t.packageMetadata? (root.join ⟨"package.json"⟩)).getD {}
    match t.locateEntry? root metadata.entryHints with
    | none => .error (.entryNotFound root)
    | some entry =>
      let name := (metadata.name.or root.fileName?).getD "project"
      .ok { name, root, entry := some entry, metadata }
  else .error (.configNotFound root)

end FileTable

end DocModel
