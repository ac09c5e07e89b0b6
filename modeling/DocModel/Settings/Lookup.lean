import DocModel.FileTable
import DocModel.Settings.Toml

/-!
# Finding settings

Settings are kept in a file of a fixed name, in the directory of a project or above it.

## Main definitions

* `SettingsError`: Why settings cannot be used.
* `FileTable.settingsFile`, `FileTable.settingsFor`: Settings by their file, and for a directory.
-/

namespace DocModel

/-- Why settings cannot be used. -/
inductive SettingsError where
  /-- The file cannot be read. -/
  | unreadable (file : Path)
  /-- The text is not well formed. -/
  | malformed
deriving DecidableEq, Inhabited

/-- Settings from a text. -/
def Settings.parse (text : String) : Except SettingsError Settings :=
  match ofToml? text with
  | some settings => .ok settings
  | none => .error .malformed

namespace FileTable

/-- The name of the file that holds settings. -/
def settingsName : String := "docgen.toml"

variable (t : FileTable)

/-- The settings in a file. -/
def settingsFile (file : Path) : Except SettingsError Settings :=
  match t.read? file with
  | some text => Settings.parse text
  | none => .error (.unreadable file)

/-- The settings in the first of `n` directories, going up, that has some. -/
def settingsAbove : Nat → Path → Except SettingsError Settings
  | 0, _ => .ok {}
  | n + 1, dir =>
    let file := dir.join ⟨settingsName⟩
    if t.isPresent file then t.settingsFile file
    else
      match dir.parent? with
      | some parent => settingsAbove n parent
      | none => .ok {}

/-- The settings for a directory: its own, or those of the nearest directory above it. Each step up
    drops a component, so there are no more steps than components. -/
def settingsFor (dir : Path) : Except SettingsError Settings :=
  t.settingsAbove (dir.components.length + 1) dir

end FileTable

end DocModel
