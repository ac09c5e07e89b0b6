import DocModel.Json.Basic

/-!
# Reading JSON texts

The grammar of JSON, read from left to right. Blanks are the four of the grammar. A number is read
to the nearest binary64 number unless it is an integer of 64 bits; the integer `-0` is a real, since
no integer has a sign of its own there.

Reading a value may go on for as many steps as the text has characters, twice over: each array or
object takes one step to open and one for each of its items.

A text may be read for some of its parts, and then the others only have to be well formed; or it may
be taken in as a whole, and then all of it has to be readable and not too deeply nested.

## Main definitions

* `Json.parse?`: The value that a text denotes.
* `Json.isWhole`: Whether a value can be taken in as a whole.
* `Json.parseWhole?`: The canonical value of a text that can be taken in as a whole.
-/

namespace DocModel.Json

/-- Drops the blanks of the grammar. -/
def skipBlanks (cs : List Char) : List Char :=
  cs.dropWhile fun c => c == ' ' || c == '\n' || c == '\t' || c == '\r'

/-- The value of a hexadecimal digit. -/
def hexValue? (c : Char) : Option Nat :=
  if '0' ≤ c && c ≤ '9' then some (c.toNat - '0'.toNat)
  else if 'a' ≤ c && c ≤ 'f' then some (c.toNat - 'a'.toNat + 10)
  else if 'A' ≤ c && c ≤ 'F' then some (c.toNat - 'A'.toNat + 10)
  else none

/-- The value of a run of hexadecimal digits. -/
def hexNumber? (cs : List Char) : Option Nat :=
  cs.foldlM (fun n c => (hexValue? c).map (n * 16 + ·)) 0

/-- The value of a run of decimal digits. -/
def decimalNumber (cs : List Char) : Nat :=
  cs.foldl (fun n c => n * 10 + (c.toNat - '0'.toNat)) 0

/-- Whether a 16-bit unit opens a surrogate pair. -/
def isHighUnit (n : Nat) : Bool := 0xD800 ≤ n && n < 0xDC00

/-- Whether a 16-bit unit closes a surrogate pair. -/
def isLowUnit (n : Nat) : Bool := 0xDC00 ≤ n && n < 0xE000

/-- The character of a surrogate pair. -/
def pairChar (high low : Nat) : Char :=
  Char.ofNat (0x10000 + (high - 0xD800) * 0x400 + (low - 0xDC00))

/-- The character after a backslash, other than a code point. -/
def escapedChar? (c : Char) : Option Char :=
  match c with
  | '"' => some '"'
  | '\\' => some '\\'
  | '/' => some '/'
  | 'b' => some '\x08'
  | 'f' => some '\x0c'
  | 'n' => some '\n'
  | 'r' => some '\r'
  | 't' => some '\t'
  | _ => none

/-- A string up to its closing quotation mark, `high` being a unit that waits for its other half:
    the characters, or nothing where a code point is half a pair, and the text behind it. -/
def stringFrom? : Option Nat → List Char → Option (Option (List Char) × List Char)
  | _, [] => none
  | high, '"' :: rest => some (if high.isSome then none else some [], rest)
  | high, '\\' :: 'u' :: a :: b :: c :: d :: rest =>
    match hexNumber? [a, b, c, d], high with
    | none, _ => none
    | some n, some h =>
      (stringFrom? none rest).map fun (s, r) =>
        (if isLowUnit n then s.map (pairChar h n :: ·) else none, r)
    | some n, none =>
      if isHighUnit n then stringFrom? (some n) rest
      else
        (stringFrom? none rest).map fun (s, r) =>
          (if isLowUnit n then none else s.map (Char.ofNat n :: ·), r)
  | high, '\\' :: c :: rest =>
    match escapedChar? c with
    | none => none
    | some e =>
      (stringFrom? none rest).map fun (s, r) =>
        (if high.isSome then none else s.map (e :: ·), r)
  | high, c :: rest =>
    if c.toNat < 0x20 then none
    else
      (stringFrom? none rest).map fun (s, r) =>
        (if high.isSome then none else s.map (c :: ·), r)

/-- A string up to its closing quotation mark. -/
def stringBody? (cs : List Char) : Option (Option (List Char) × List Char) := stringFrom? none cs

/-- Whether a string up to its closing quotation mark has an escape. A quotation mark that does not
    close it has a backslash before it. -/
def hasEscape (cs : List Char) : Bool := (cs.takeWhile (· != '"')).contains '\\'

/-- A run of digits, at least one, and the text behind it. -/
def digits? (cs : List Char) : Option (List Char × List Char) :=
  let ds := cs.takeWhile Char.isDigit
  if ds.isEmpty then none else some (ds, cs.drop ds.length)

/-- A whole part: digits without a leading zero, unless it is all there is. -/
def wholePart? (cs : List Char) : Option (List Char × List Char) := do
  let (ds, rest) ← digits? cs
  if ds.length > 1 && ds.head? == some '0' then none else some (ds, rest)

/-- The digits behind a point, if there is one. -/
def fraction? (cs : List Char) : Option (Option (List Char) × List Char) :=
  match cs with
  | '.' :: rest => (digits? rest).map fun (ds, r) => (some ds, r)
  | _ => some (none, cs)

/-- The exponent behind its mark, if there is one. -/
def exponent? (cs : List Char) : Option (Option Int × List Char) :=
  match cs with
  | c :: rest =>
    if c == 'e' || c == 'E' then
      match rest with
      | '-' :: rest => (digits? rest).map fun (ds, r) => (some (-(decimalNumber ds : Int)), r)
      | '+' :: rest => (digits? rest).map fun (ds, r) => (some (decimalNumber ds : Int), r)
      | rest => (digits? rest).map fun (ds, r) => (some (decimalNumber ds : Int), r)
    else some (none, cs)
  | [] => some (none, cs)

/-- A real as a value, unreadable where it is out of range. -/
def ofReal (x : Binary64) : Json := if x.isFinite then number (.real x) else unreadable

/-- The number with the given sign, whole part, fraction and exponent. -/
def ofParts (negative : Bool) (whole : List Char) (fraction : Option (List Char))
    (exponent : Option Int) : Json :=
  let n := decimalNumber whole
  match fraction, exponent with
  | none, none =>
    if !negative && n < twoTo 64 then number (.integer n)
    else if negative && 0 < n && n ≤ twoTo 63 then number (.integer (-(n : Int)))
    else ofReal (Binary64.ofDecimal negative n 0)
  | _, _ =>
    let ds := fraction.getD []
    ofReal (Binary64.ofDecimal negative (decimalNumber (whole ++ ds))
      (exponent.getD 0 - (ds.length : Int)))

/-- A number and the text behind it. -/
def number? (cs : List Char) : Option (Json × List Char) := do
  let (negative, cs) :=
    match cs with
    | '-' :: rest => (true, rest)
    | _ => (false, cs)
  let (whole, cs) ← wholePart? cs
  let (fraction, cs) ← fraction? cs
  let (exponent, cs) ← exponent? cs
  some (ofParts negative whole fraction exponent, cs)

mutual

/-- A value and the text behind it, in at most the given number of steps. -/
def value? : Nat → List Char → Option (Json × List Char)
  | 0, _ => none
  | n + 1, cs =>
    match skipBlanks cs with
    | '"' :: rest =>
      (stringBody? rest).map fun (s, r) =>
        (match s with
          | some s => string (String.ofList s)
          | none => unreadable, r)
    | '[' :: rest =>
      match skipBlanks rest with
      | ']' :: rest => some (array [], rest)
      | rest => (items? n rest).map fun (js, r) => (array js, r)
    | '\x7b' :: rest =>
      match skipBlanks rest with
      | '\x7d' :: rest => some (object [], rest)
      | rest =>
        (members? n rest).map fun (fs, r) =>
          (match fs with
            | some fs => object fs
            | none => unreadable, r)
    | 'n' :: 'u' :: 'l' :: 'l' :: rest => some (null, rest)
    | 't' :: 'r' :: 'u' :: 'e' :: rest => some (bool true, rest)
    | 'f' :: 'a' :: 'l' :: 's' :: 'e' :: rest => some (bool false, rest)
    | rest => number? rest

/-- The items of an array, up to its closing bracket. -/
def items? : Nat → List Char → Option (List Json × List Char)
  | 0, _ => none
  | n + 1, cs =>
    match value? n cs with
    | none => none
    | some (j, rest) =>
      match skipBlanks rest with
      | ',' :: rest => (items? n rest).map fun (js, r) => (j :: js, r)
      | ']' :: rest => some ([j], rest)
      | _ => none

/-- The members of an object, up to its closing brace. A key that denotes nothing spoils them all.
-/
def members? : Nat → List Char → Option (Option (List (Key × Json)) × List Char)
  | 0, _ => none
  | n + 1, cs =>
    match skipBlanks cs with
    | '"' :: body =>
      match stringBody? body with
      | none => none
      | some (key, rest) =>
        match skipBlanks rest with
        | ':' :: rest =>
          match value? n rest with
          | none => none
          | some (j, rest) =>
            let first := key.map fun k => (⟨String.ofList k, hasEscape body⟩, j)
            match skipBlanks rest with
            | ',' :: rest =>
              (members? n rest).map fun (fs, r) =>
                (match first, fs with
                  | some f, some fs => some (f :: fs)
                  | _, _ => none, r)
            | '\x7d' :: rest => some (first.map ([·]), rest)
            | _ => none
        | _ => none
    | _ => none

end

/-- The value that a text denotes. -/
def parse? (text : String) : Option Json :=
  let cs := text.toList
  match value? (2 * cs.length + 2) cs with
  | some (j, rest) => if (skipBlanks rest).isEmpty then some j else none
  | none => none

/-- How deeply a value that is taken in as a whole may be nested. -/
def maxDepth : Nat := 127

/-- Whether a value can be taken in as a whole: all of it is readable, and it is not nested more
    deeply than the given bound. -/
def isWhole (bound : Nat) (j : Json) : Bool := j.isReadable && j.depth ≤ bound

/-- The canonical value of a text that can be taken in as a whole. -/
def parseWhole? (text : String) : Option Json := do
  let j ← parse? text
  if j.isWhole maxDepth then some j.canonical else none

end DocModel.Json
