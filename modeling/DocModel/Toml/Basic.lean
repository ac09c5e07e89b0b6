import DocModel.Number.Binary64

/-!
# TOML documents

The values of TOML, and the rules by which the lines of a document make up its tables. A table may
be opened by a header, implied by the header of a table below it, opened by a dotted key, or written
out in braces, and what may still be added to it depends on which of these it was:

* a header may open a table that is not there, or one that was only implied;
* a dotted key may go through tables that were implied or opened by dotted keys, and the table that
  it ends in must have been opened by dotted keys;
* a table in braces is complete;
* a key is set once.

## Main definitions

* `Toml`: Values.
* `Toml.Entries.insert?`: Sets a dotted key.
* `Toml.Entries.openTable?`, `Toml.Entries.openElement?`: What headers do.
* `Toml.Entries.reach?`: Changes the table of a header.
-/

namespace DocModel

/-- How a table came to be. -/
inductive Toml.Opening where
  /-- By a header of its own, or as the top of the document. -/
  | header
  /-- By the header of a table below it. -/
  | implied
  /-- By a dotted key. -/
  | dotted
  /-- By being written out in braces. -/
  | inline
deriving DecidableEq

/-- A value of TOML. -/
inductive Toml where
  | string (value : String)
  | integer (value : Int)
  | float (value : Binary64)
  | boolean (value : Bool)
  /-- A date, a time or both, as written. -/
  | moment (text : String)
  | array (items : List Toml)
  | table (opening : Toml.Opening) (entries : List (String × Toml))
  /-- Tables that were opened one after the other under the same header. -/
  | tables (elements : List (List (String × Toml)))

namespace Toml

instance : Inhabited Toml := ⟨boolean false⟩

/-- The entries of a table. -/
abbrev Entries := List (String × Toml)

namespace Entries

/-- The value of a key. -/
def get? (es : Entries) (key : String) : Option Toml := (List.find? (·.1 == key) es).map (·.2)

/-- Changes the value of a key, which is appended if it is not there. -/
def change? (es : Entries) (key : String) (f : Option Toml → Option Toml) : Option Entries :=
  match es with
  | [] => (f none).map fun v => [(key, v)]
  | (k, v) :: rest =>
    if k = key then (f (some v)).map fun v => (k, v) :: rest
    else (change? rest key f).map ((k, v) :: ·)

/-- Sets a key that is not there. -/
def add? (es : Entries) (key : String) (value : Toml) : Option Entries :=
  es.change? key fun
    | none => some value
    | some _ => none

/-- Changes the last of several tables. -/
def changeLast? (f : Entries → Option Entries) : List Entries → Option (List Entries)
  | [] => none
  | [es] => (f es).map ([·])
  | es :: rest => (changeLast? f rest).map (es :: ·)

/-- Sets a dotted key: `path` leads to the table that it is set in. -/
def insert? (value : Toml) (key : String) : List String → Entries → Option Entries
  | [], es => es.add? key value
  | name :: path, es =>
    es.change? name fun
      | none => (insert? value key path []).map (.table .dotted)
      | some (.table .dotted inner) => (insert? value key path inner).map (.table .dotted)
      | some (.table .implied inner) =>
        if path.isEmpty then none else (insert? value key path inner).map (.table .implied)
      | some (.tables elements) =>
        if path.isEmpty then none else (changeLast? (insert? value key path) elements).map .tables
      | some _ => none

/-- Goes to the entries of the table that `path` leads to, through tables of any sort but those in
    braces, and changes them. Tables on the way that are not there are implied. -/
def reach? (f : Entries → Option Entries) : List String → Entries → Option Entries
  | [], es => f es
  | name :: path, es =>
    es.change? name fun
      | none => (reach? f path []).map (.table .implied)
      | some (.table .inline _) => none
      | some (.table opening inner) => (reach? f path inner).map (.table opening)
      | some (.tables elements) => (changeLast? (reach? f path) elements).map .tables
      | some _ => none

/-- Opens the table of a header. -/
def openTable? (es : Entries) (path : List String) (key : String) : Option Entries :=
  let start (inner : Entries) := inner.change? key fun
    | none => some (.table .header [])
    | some (.table .implied entries) => some (.table .header entries)
    | some _ => none
  reach? start path es

/-- Opens a table behind those that were opened under the same header. -/
def openElement? (es : Entries) (path : List String) (key : String) : Option Entries :=
  let start (inner : Entries) := inner.change? key fun
    | none => some (.tables [[]])
    | some (.tables elements) => some (.tables (elements ++ [[]]))
    | some _ => none
  reach? start path es

end Entries

end Toml

end DocModel
