import DocModel.Json.Basic
import DocModel.Number.Layout
import DocModel.Text.Escaped
import DocModel.Text.Search

/-!
# Writing JSON texts

Fields are written in the order they stand in. The compact text has no blanks; the indented one puts
every item and every field on a line of its own, two blanks further in for each level, and writes an
empty array or object on one line.

## Main definitions

* `Json.compact`: The text without blanks.
* `Json.indented`: The text with two blanks for each level.
-/

namespace DocModel.Json

/-- The written form of one character of a string. -/
def writtenChar (c : Char) : List Char :=
  match c with
  | '"' => ['\\', '"']
  | '\\' => ['\\', '\\']
  | '\x08' => ['\\', 'b']
  | '\x0c' => ['\\', 'f']
  | '\n' => ['\\', 'n']
  | '\r' => ['\\', 'r']
  | '\t' => ['\\', 't']
  | c =>
    if c.toNat < 0x20 then
      let ds := Text.hexDigits c.toNat
      ['\\', 'u'] ++ List.replicate (4 - ds.length) '0' ++ ds
    else [c]

/-- The written form of a string. -/
def writtenString (s : String) : String :=
  String.ofList ('"' :: s.toList.flatMap writtenChar ++ ['"'])

/-- The written form of a number. -/
def Number.written : Number → String
  | integer i => (if i < 0 then "-" else "") ++ toString i.natAbs
  | real x => if x.isFinite then x.data else "null"

mutual

/-- The text without blanks. -/
def compact : Json → String
  | null => "null"
  | bool true => "true"
  | bool false => "false"
  | number n => n.written
  | string s => writtenString s
  | unreadable => "null"
  | array items => "[" ++ Text.joinWith "," (compactItems items) ++ "]"
  | object fields => "\x7b" ++ Text.joinWith "," (compactFields fields) ++ "\x7d"

/-- The texts of items. -/
def compactItems : List Json → List String
  | [] => []
  | j :: js => compact j :: compactItems js

/-- The texts of fields. -/
def compactFields : List (Key × Json) → List String
  | [] => []
  | (k, j) :: fs => (writtenString k.text ++ ":" ++ compact j) :: compactFields fs

end

/-- The blanks before a line at the given level. -/
def margin (level : Nat) : String := String.ofList (List.replicate (2 * level) ' ')

/-- Lines between a pair of brackets, one level in. -/
def bracketed (opening closing : String) (level : Nat) (texts : List String) : String :=
  if texts.isEmpty then opening ++ closing
  else
    opening ++ "\n" ++ margin (level + 1) ++
      Text.joinWith (",\n" ++ margin (level + 1)) texts ++ "\n" ++ margin level ++ closing

mutual

/-- The indented text of a value that stands at the given level. -/
def indentedAt (level : Nat) : Json → String
  | null => "null"
  | bool true => "true"
  | bool false => "false"
  | number n => n.written
  | string s => writtenString s
  | unreadable => "null"
  | array items => bracketed "[" "]" level (indentedItems (level + 1) items)
  | object fields => bracketed "\x7b" "\x7d" level (indentedFields (level + 1) fields)

/-- The indented texts of items at the given level. -/
def indentedItems (level : Nat) : List Json → List String
  | [] => []
  | j :: js => indentedAt level j :: indentedItems level js

/-- The indented texts of fields at the given level. -/
def indentedFields (level : Nat) : List (Key × Json) → List String
  | [] => []
  | (k, j) :: fs => (writtenString k.text ++ ": " ++ indentedAt level j) :: indentedFields level fs

end

/-- The text with two blanks for each level. -/
def indented (j : Json) : String := indentedAt 0 j

end DocModel.Json
