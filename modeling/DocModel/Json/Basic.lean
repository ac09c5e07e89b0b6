import DocModel.Number.Binary64
import DocModel.Table

/-!
# JSON values

A JSON value as it stands in a text: an object keeps its fields in the order they were written, and
a key may come more than once, since it is for the reader of the object to say whether that is
allowed. Integers are kept apart from other numbers. A scalar that is well formed and yet denotes
nothing, such as half of a surrogate pair or a number beyond the largest binary64 number, is
*unreadable*: it does no harm in a field that nobody reads. A key remembers whether it was written
with an escape, since a number that is a key has to stand there digit by digit.

## Main definitions

* `Json`, `Json.Number`, `Json.Key`: Values, numbers and keys.
* `Json.depth`: How deeply arrays and objects are nested.
* `Json.canonical`: The value with every object's keys in ascending order, the last of several
  values for a key being kept.
-/

namespace DocModel

/-- A JSON number. -/
inductive Json.Number where
  /-- A number written without point and exponent that fits a 64-bit integer. -/
  | integer (value : Int)
  /-- Any other number. -/
  | real (value : Binary64)
deriving DecidableEq

/-- The key of a field. -/
structure Json.Key where
  /-- The characters that the key denotes. -/
  text : String
  /-- Whether one of them was written with an escape. -/
  escaped : Bool := false
deriving DecidableEq

instance : Coe String Json.Key := ⟨fun text => { text }⟩

/-- A JSON value. -/
inductive Json where
  | null
  | bool (value : Bool)
  | number (value : Json.Number)
  | string (value : String)
  /-- A well-formed value that denotes nothing. -/
  | unreadable
  | array (items : List Json)
  | object (fields : List (Json.Key × Json))

namespace Json

instance : Inhabited Json := ⟨null⟩

mutual

/-- The number of arrays and objects around the most deeply nested value. -/
def depth : Json → Nat
  | array items => depthItems items + 1
  | object fields => depthFields fields + 1
  | _ => 0

/-- The greatest depth among the items of an array. -/
def depthItems : List Json → Nat
  | [] => 0
  | j :: js => max (depth j) (depthItems js)

/-- The greatest depth among the values of an object. -/
def depthFields : List (Key × Json) → Nat
  | [] => 0
  | (_, j) :: fs => max (depth j) (depthFields fs)

end

mutual

/-- Whether no part of the value is unreadable. -/
def isReadable : Json → Bool
  | unreadable => false
  | array items => isReadableItems items
  | object fields => isReadableFields fields
  | _ => true

/-- Whether no item is unreadable. -/
def isReadableItems : List Json → Bool
  | [] => true
  | j :: js => isReadable j && isReadableItems js

/-- Whether no field is unreadable. -/
def isReadableFields : List (Key × Json) → Bool
  | [] => true
  | (_, j) :: fs => isReadable j && isReadableFields fs

end

mutual

/-- The value with the keys of each object in ascending order; of several values for a key the last
    is kept. How a key was written is forgotten. -/
def canonical : Json → Json
  | array items => array (canonicalItems items)
  | object fields =>
    object ((Table.ofList (canonicalFields fields)).entries.map fun (k, j) => ((k : Key), j))
  | j => j

/-- The canonical forms of items. -/
def canonicalItems : List Json → List Json
  | [] => []
  | j :: js => canonical j :: canonicalItems js

/-- The fields with canonical values, by the text of the key. -/
def canonicalFields : List (Key × Json) → List (String × Json)
  | [] => []
  | (k, j) :: fs => (k.text, canonical j) :: canonicalFields fs

end

/-- A natural number as a value. -/
def ofNat (n : Nat) : Json := number (.integer n)

/-- Strings as a value. -/
def ofStrings (ss : List String) : Json := array (ss.map string)

/-- The value, or null where there is none. -/
def ofOption : Option Json → Json
  | some j => j
  | none => null

end Json

end DocModel
