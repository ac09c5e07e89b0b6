import DocModel.Json.Basic

/-!
# Fields of JSON objects

How records are laid out as objects, and read back. A record leaves out fields that carry nothing:
an absent option, an empty list, a flag that is not set. A reader takes each field by name, refuses
a field that comes twice, and skips the fields that it does not know.

In a tagged value one field names the form that the others have. That field may stand behind the
others, so a tagged value is taken in before it is read, and what has been taken in is read
leniently: a form may be given by its number, and a name that stands alone may have an empty object
behind it.

## Main definitions

* `Json.Fields`: The fields of an object.
* `Json.Reading`: Strict or lenient reading.
* `Json.always`, `Json.present`, `Json.nonempty`, `Json.flag`: Writing a field.
* `Json.Fields.required?`, `Json.Fields.optional?`, `Json.Fields.default?`: Reading a field.
* `Json.text?`, `Json.bool?`, `Json.word?`, `Json.listOf?`, `Json.variant?`, `Json.tag?`: Reading a
  value.
-/

namespace DocModel.Json

/-- The fields of an object, in order. -/
abbrev Fields := List (Key × Json)

/-- A field that is always written. -/
def always (key : String) (j : Json) : Fields := [(key, j)]

/-- A field that is written where there is a value. -/
def present (key : String) : Option Json → Fields
  | some j => [(key, j)]
  | none => []

/-- A list field that is written unless it is empty. -/
def nonempty (key : String) : List Json → Fields
  | [] => []
  | js => [(key, array js)]

/-- A flag that is written where it is set. -/
def flag (key : String) : Bool → Fields
  | true => [(key, bool true)]
  | false => []

/-- The fields of an object. An array has none: records are not written as lists of their values. -/
def fields? : Json → Option Fields
  | object fields => some fields
  | _ => none

/-- The items of an array. -/
def items : Json → Option (List Json)
  | array items => some items
  | _ => none

namespace Fields

/-- The value of a field, if it is there. Refuses a field that comes twice. -/
def single? (fs : Fields) (key : String) : Option (Option Json) :=
  match fs.filter (·.1.text == key) with
  | [] => some none
  | [(_, j)] => some (some j)
  | _ => none

variable {α : Type}

/-- Reads a field that must be there. -/
def required? (fs : Fields) (key : String) (read : Json → Option α) : Option α :=
  match fs.single? key with
  | some (some j) => read j
  | _ => none

/-- Reads a field that may be missing or null. -/
def optional? (fs : Fields) (key : String) (read : Json → Option α) : Option (Option α) :=
  match fs.single? key with
  | some (some null) => some none
  | some (some j) => (read j).map some
  | some none => some none
  | none => none

/-- Reads a field that stands for `fallback` where it is missing. -/
def default? (fs : Fields) (key : String) (fallback : α) (read : Json → Option α) : Option α :=
  match fs.single? key with
  | some (some j) => read j
  | some none => some fallback
  | none => none

end Fields

/-- A string. -/
def text? : Json → Option String
  | string s => some s
  | _ => none

/-- A truth value. -/
def bool? : Json → Option Bool
  | bool b => some b
  | _ => none

/-- An integer from `0` to `2 ^ 32 - 1`. -/
def word? : Json → Option Nat
  | number (.integer i) => if 0 ≤ i && i < twoTo 32 then some i.toNat else none
  | _ => none

/-- A number of any kind, as a real. -/
def real? : Json → Option Binary64
  | number (.real x) => some x
  | number (.integer i) => some (Binary64.ofDecimal (i < 0) i.natAbs 0)
  | _ => none

/-- An array whose items are read one by one. -/
def listOf? {α : Type} (read : Json → Option α) : Json → Option (List α)
  | array items => items.mapM read
  | _ => none

/-- How names are read. -/
inductive Reading where
  /-- Outside of tagged values. -/
  | strict
  /-- Inside a tagged value. -/
  | lenient
deriving DecidableEq

/-- A name that stands alone, written as a string or as the only key of an object with nothing
    behind it. In lenient reading, an empty object is nothing. -/
def variant? (reading : Reading) : Json → Option String
  | string s => some s
  | object [(s, null)] => some s.text
  | object [(s, object [])] => if reading = .lenient then some s.text else none
  | _ => none

/-- The name of a form, one of several. In lenient reading, a number stands for the name at its
    place. -/
def tag? (reading : Reading) (names : List String) : Json → Option String
  | string s => some s
  | number (.integer i) => if reading = .lenient && 0 ≤ i then names[i.toNat]? else none
  | _ => none

/-- A name with something behind it, written as the only key of an object. -/
def tagged? : Json → Option (String × Json)
  | object [(s, j)] => some (s.text, j)
  | _ => none

/-- The value of an entry in a table that is keyed by name. -/
def named? {α : Type} (table : List (String × α)) (name : String) : Option α :=
  (table.find? (·.1 == name)).map (·.2)

end DocModel.Json
