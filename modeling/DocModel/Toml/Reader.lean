import DocModel.Json.Reader
import DocModel.Toml.Basic

/-!
# Reading TOML texts

The grammar of TOML, read from left to right. A document is a sequence of lines; a line is blank, a
header, or a key with its value. Values are nested at most seventy-nine deep, and a dotted key has
at most as many parts.

A reader takes something off the front of a text, or refuses. Readers that repeat something are
given a number of rounds, for which the length of the text is always enough.

## Main definitions

* `Toml.Reader`: A reader.
* `Toml.Reader.value`: A value.
* `Toml.parse?`: The entries of a document.
-/

namespace DocModel.Toml

/-- Takes something off the front of a text, or refuses. -/
abbrev Reader := StateT (List Char) Option

namespace Reader

/-- Refuses. -/
def refuse {α : Type} : Reader α := fun _ => none

/-- The text that is left. -/
def rest : Reader (List Char) := get

/-- Takes a text that must stand in front. -/
def expect (text : String) : Reader Unit := do
  match text.toList.isPrefixOf? (← rest) with
  | some cs => set cs
  | none => refuse

/-- Takes a text if it stands in front, and says whether it did. -/
def accept (text : String) : Reader Bool := do
  match text.toList.isPrefixOf? (← rest) with
  | some cs => set cs; return true
  | none => return false

/-- Takes the characters of a class. -/
def run (p : Char → Bool) : Reader (List Char) := do
  let cs ← rest
  set (cs.dropWhile p)
  return cs.takeWhile p

/-- Takes one character of a class. -/
def one (p : Char → Bool) : Reader Char := do
  match ← rest with
  | c :: cs => if p c then set cs; return c else refuse
  | [] => refuse

/-- Reads something if it can be read. -/
def optional {α : Type} (r : Reader α) : Reader (Option α) := (some <$> r) <|> pure none

/-- Reads something and checks it. -/
def verify {α : Type} (r : Reader α) (p : α → Bool) : Reader α := do
  let a ← r
  if p a then return a else refuse

/-- Whether a character is a blank inside a line. -/
def isBlank (c : Char) : Bool := c == ' ' || c == '\t'

/-- Skips the blanks inside a line. -/
def blanks : Reader Unit := do
  let _ ← run isBlank

/-- Whether a character may stand in a comment or a string: a tab, or none of the controls. -/
def isPrinted (c : Char) : Bool := c == '\t' || (0x20 ≤ c.toNat && c != '\x7f')

/-- Takes the end of a line. -/
def newline : Reader Unit := expect "\n" <|> expect "\r\n"

/-- Skips a comment if there is one. -/
def comment : Reader Unit := do
  if ← accept "#" then
    let _ ← run isPrinted

/-- Takes what may follow on a line, and its end or that of the text. -/
def lineEnd : Reader Unit := do
  blanks
  comment
  if !(← rest).isEmpty then newline

/-- Skips blanks, comments and line ends. -/
def layout : Nat → Reader Unit
  | 0 => refuse
  | n + 1 => do
    blanks
    match (← rest).head? with
    | some '#' => comment; newline; layout n
    | some '\n' | some '\r' => newline; layout n
    | _ => return ()

/-! ### Strings -/

/-- The character with the given code in hexadecimal digits. -/
def codeChar? (digits : List Char) : Option Char := do
  let n ← Json.hexNumber? digits
  if n.isValidChar then some (Char.ofNat n) else none

/-- The character that a letter behind a backslash stands for. -/
def escapedChar? : Char → Option Char
  | 'b' => some '\x08'
  | 't' => some '\t'
  | 'n' => some '\n'
  | 'f' => some '\x0c'
  | 'r' => some '\r'
  | '"' => some '"'
  | '\\' => some '\\'
  | _ => none

/-- Takes `n` characters. -/
def take (n : Nat) : Reader (List Char) := do
  let cs ← rest
  if cs.length < n then refuse
  else
    set (cs.drop n)
    return cs.take n

/-- Reads what stands behind a backslash. -/
def escape : Reader Char := do
  match ← one fun _ => true with
  | 'u' => codeChar? (← take 4)
  | 'U' => codeChar? (← take 8)
  | c => escapedChar? c

/-- Whether a character stands for itself between double quotes. -/
def isPlain (c : Char) : Bool := isPrinted c && c != '"' && c != '\\'

/-- Whether a character stands for itself between single quotes. -/
def isLiteral (c : Char) : Bool := isPrinted c && c != '\x27'

/-- Reads a string in double quotes, behind the first. -/
def basicBody : Nat → Reader (List Char)
  | 0 => refuse
  | n + 1 => do
    let plain ← run isPlain
    if ← accept "\"" then return plain
    else
      expect "\\"
      let c ← escape
      return plain ++ c :: (← basicBody n)

/-- Reads a string in double quotes. -/
def basicString : Reader String := do
  expect "\""
  return String.ofList (← basicBody (← rest).length)

/-- Reads a string in single quotes. -/
def literalString : Reader String := do
  expect "'"
  let body ← run isLiteral
  expect "'"
  return String.ofList body

/-- Takes quotes that may end a string of several lines. Three end it, and up to two more in front
    of them belong to it; gives those of the string, and whether it has ended. -/
def quotes (quote : Char) : Reader (List Char × Bool) := do
  let run := (← rest).takeWhile (· == quote)
  let count := min run.length 5
  let _ ← take count
  if count < 3 then return (run, false) else return (run.take (count - 3), true)

/-- Skips blanks and line ends. -/
def lineBreaks : Nat → Reader Unit
  | 0 => refuse
  | n + 1 => do
    blanks
    match (← rest).head? with
    | some '\n' | some '\r' => newline; lineBreaks n
    | _ => return ()

/-- Reads a string of several lines in double quotes, behind the first three. A backslash at the end
    of a line joins it to the next text. -/
def longBasicBody : Nat → Reader (List Char)
  | 0 => refuse
  | n + 1 => do
    let plain ← run isPlain
    match (← rest).head? with
    | some '"' =>
      let (own, isEnd) ← quotes '"'
      if isEnd then return plain ++ own else return plain ++ own ++ (← longBasicBody n)
    | some '\\' =>
      expect "\\"
      match (← rest).head? with
      | some ' ' | some '\t' | some '\n' | some '\r' =>
        blanks
        newline
        lineBreaks (n + 1)
        return plain ++ (← longBasicBody n)
      | _ =>
        let c ← escape
        return plain ++ c :: (← longBasicBody n)
    | _ =>
      newline
      return plain ++ '\n' :: (← longBasicBody n)

/-- Reads a string of several lines in single quotes, behind the first three. -/
def longLiteralBody : Nat → Reader (List Char)
  | 0 => refuse
  | n + 1 => do
    let plain ← run isLiteral
    match (← rest).head? with
    | some '\x27' =>
      let (own, isEnd) ← quotes '\x27'
      if isEnd then return plain ++ own else return plain ++ own ++ (← longLiteralBody n)
    | _ =>
      newline
      return plain ++ '\n' :: (← longLiteralBody n)

/-- Reads a string of several lines. A line end right behind the opening quotes does not count. -/
def longString (marks : String) (body : Nat → Reader (List Char)) : Reader String := do
  expect marks
  let _ ← optional newline
  return String.ofList (← body ((← rest).length + 1))

/-- Reads a string. -/
def string : Reader String :=
  longString "\"\"\"" longBasicBody <|> basicString <|> longString "'''" longLiteralBody <|>
    literalString

/-! ### Keys -/

/-- Whether a character may stand in a key without quotes. -/
def isBare (c : Char) : Bool := c.isAlphanum || c == '_' || c == '-'

/-- Reads one part of a key. -/
def simpleKey : Reader String :=
  basicString <|> literalString <|> do
    let cs ← verify (run isBare) (!·.isEmpty)
    return String.ofList cs

/-- How many parts a dotted key may have, and how deeply values may be nested. -/
def nestingLimit : Nat := 79

/-- Reads the parts of a dotted key, with blanks around them. -/
def keyParts : Nat → Reader (List String)
  | 0 => refuse
  | n + 1 => do
    blanks
    let part ← simpleKey
    blanks
    if ← accept "." then return part :: (← keyParts n) else return [part]

/-- Reads a dotted key: the path to it, and its last part. -/
def key : Reader (List String × String) := do
  let parts ← keyParts nestingLimit
  match parts.getLast? with
  | some last => return (parts.dropLast, last)
  | none => refuse

/-! ### Numbers, dates and times -/

/-- Takes digits of a class that single underscores may divide. -/
def underscored (p : Char → Bool) : Nat → Reader (List Char)
  | 0 => refuse
  | n + 1 => do
    let c ← one p
    match ← rest with
    | '_' :: d :: _ =>
      if p d then
        expect "_"
        return c :: (← underscored p n)
      else return [c]
    | d :: _ => if p d then return c :: (← underscored p n) else return [c]
    | [] => return [c]

/-- Takes digits of a class. -/
def digits (p : Char → Bool) : Reader (List Char) := do underscored p ((← rest).length + 1)

/-- Reads a sign, and says whether it is a minus. -/
def sign : Reader Bool := do
  if ← accept "-" then return true
  else
    let _ ← accept "+"
    return false

/-- Reads the digits of a decimal integer, which do not start with a zero unless that is all. -/
def decimalDigits : Reader (List Char) := do
  if ← accept "0" then return ['0'] else digits Char.isDigit

/-- Reads an exponent. -/
def exponent : Reader Int := do
  let _ ← one fun c => c == 'e' || c == 'E'
  let negative ← sign
  let n := Json.decimalNumber (← digits Char.isDigit)
  return if negative then -n else n

/-- Reads a fraction. -/
def fraction : Reader (List Char) := do
  expect "."
  digits Char.isDigit

/-- Reads a number with a fraction, an exponent or both. A number too large to be finite is refused.
-/
def decimal : Reader Toml := do
  let negative ← sign
  let whole ← decimalDigits
  let fractional ← optional fraction
  let scale ← optional exponent
  if fractional.isNone && scale.isNone then refuse
  else
    let places := fractional.getD []
    let x := Binary64.ofDecimal negative (Json.decimalNumber (whole ++ places))
      (scale.getD 0 - places.length)
    if x = Binary64.infinity false then refuse else return .float x

/-- Reads an infinity, or the number that is none. -/
def special : Reader Toml := do
  let negative ← sign
  if ← accept "inf" then return .float (Binary64.infinity negative)
  else
    expect "nan"
    return .float ⟨0x7FF8000000000000⟩

/-- An integer of sixty-four bits. -/
def bounded (i : Int) : Reader Toml :=
  if -(twoTo 63 : Int) ≤ i && i < twoTo 63 then return .integer i else refuse

/-- Reads an integer with a mark for its base. -/
def based (mark : String) (base : Nat) (p : Char → Bool) : Reader Toml := do
  expect mark
  let ds ← digits p
  bounded (ds.foldl (fun n c => n * base + (Json.hexValue? c).getD 0) 0)

/-- Whether a character is a hexadecimal digit. -/
def isHex (c : Char) : Bool := (Json.hexValue? c).isSome

/-- Reads an integer. -/
def integer : Reader Toml :=
  based "0x" 16 isHex <|> based "0o" 8 (fun c => '0' ≤ c && c ≤ '7') <|>
    based "0b" 2 (fun c => c == '0' || c == '1') <|> do
    let negative ← sign
    let n : Int := Json.decimalNumber (← decimalDigits)
    bounded (if negative then -n else n)

/-- Reads a number of `n` digits in a range. -/
def field (n low high : Nat) : Reader Nat := do
  let ds ← verify (take n) (·.all Char.isDigit)
  verify (pure (Json.decimalNumber ds)) fun k => low ≤ k && k ≤ high

/-- How many days a month has. -/
def monthDays (year month : Nat) : Nat :=
  if month = 2 then
    if year % 4 = 0 && (year % 100 != 0 || year % 400 = 0) then 29 else 28
  else if month = 4 || month = 6 || month = 9 || month = 11 then 30
  else 31

/-- Reads a date. -/
def date : Reader Unit := do
  let year ← field 4 0 9999
  expect "-"
  let month ← field 2 1 12
  expect "-"
  let _ ← field 2 1 (monthDays year month)

/-- Reads a time of day. -/
def time : Reader Unit := do
  let _ ← field 2 0 23
  expect ":"
  let _ ← field 2 0 59
  expect ":"
  let _ ← field 2 0 60
  if ← accept "." then
    let _ ← verify (run Char.isDigit) (!·.isEmpty)

/-- Reads the distance of a time from universal time. -/
def zone : Reader Unit := do
  let mark ← one fun c => c == 'Z' || c == 'z' || c == '+' || c == '-'
  if mark == '+' || mark == '-' then
    let _ ← field 2 0 23
    expect ":"
    let _ ← field 2 0 59

/-- Reads a date, with a time behind it or not. -/
def dateAndTime : Reader Unit := do
  date
  let _ ← optional do
    let _ ← one fun c => c == 'T' || c == 't' || c == ' '
    time
    let _ ← optional zone

/-- Reads a date, a time or both. -/
def moment : Reader Toml := do
  let before ← rest
  dateAndTime <|> time
  let after ← rest
  return .moment (String.ofList (before.take (before.length - after.length)))

/-! ### Values -/

/-- Reads the items of an array, behind its bracket. A comma may follow the last one. -/
def items (item : Reader Toml) : Nat → Reader (List Toml)
  | 0 => refuse
  | n + 1 => do
    layout (n + 1)
    if ← accept "]" then return []
    else
      let first ← item
      layout (n + 1)
      if ← accept "," then return first :: (← items item n)
      else
        expect "]"
        return [first]

/-- Reads a key and its value. -/
def pair (item : Reader Toml) : Reader (List String × String × Toml) := do
  let (path, last) ← key
  expect "="
  blanks
  let v ← item
  return (path, last, v)

/-- Reads keys and values with commas between them, up to the closing brace. -/
def pairs (item : Reader Toml) : Nat → Entries → Reader Entries
  | 0, _ => refuse
  | n + 1, es => do
    let (path, last, v) ← pair item
    let es ← es.insert? v last path
    blanks
    if ← accept "," then pairs item n es
    else
      expect "\x7d"
      return es

/-- Reads an array, with a reader for its items. -/
def arrayOf (item : Reader Toml) : Reader Toml := do
  expect "["
  return .array (← items item ((← rest).length + 1))

/-- Reads a table in braces, with a reader for its values. -/
def inlineTable (item : Reader Toml) : Reader Toml := do
  expect "\x7b"
  let rounds := (← rest).length + 1
  blanks
  if ← accept "\x7d" then return .table .inline []
  else return .table .inline (← pairs item rounds [])

/-- Reads a value, with a reader for the values in it. Without one, arrays and tables are refused.
-/
def valueOf (item : Option (Reader Toml)) : Reader Toml := do
  match (← rest).head?, item with
  | some '"', _ | some '\x27', _ => return .string (← string)
  | some '[', some item => arrayOf item
  | some '\x7b', some item => inlineTable item
  | some 't', _ => expect "true"; return .boolean true
  | some 'f', _ => expect "false"; return .boolean false
  | _, _ => moment <|> decimal <|> special <|> integer

/-- Reads a value that has at most `n` levels of arrays and tables. -/
def value : Nat → Reader Toml
  | 0 => valueOf none
  | n + 1 => valueOf (some (value n))

/-! ### Documents -/

/-- What has been read of a document: its entries, and the header in force. -/
structure Draft where
  entries : Entries := []
  header : List String := []

/-- Reads a header in brackets. -/
def header (opening closing : String)
    (start : Entries → List String → String → Option Entries) (d : Draft) : Reader Draft := do
  expect opening
  let (path, last) ← key
  expect closing
  lineEnd
  return { entries := ← start d.entries path last, header := path ++ [last] }

/-- Reads one line that is not blank. -/
def line (d : Draft) : Reader Draft := do
  match ← rest with
  | '#' :: _ => lineEnd; return d
  | '\n' :: _ | '\r' :: _ => newline; return d
  | '[' :: '[' :: _ => header "[[" "]]" Entries.openElement? d
  | '[' :: _ => header "[" "]" Entries.openTable? d
  | _ =>
    let (path, last, v) ← pair (value nestingLimit)
    lineEnd
    return { d with entries := ← Entries.reach? (Entries.insert? v last path) d.header d.entries }

/-- Reads lines up to the end of the text. -/
def lines : Nat → Draft → Reader Draft
  | 0, _ => refuse
  | n + 1, d => do
    blanks
    if (← rest).isEmpty then return d else lines n (← line d)

end Reader

/-- The entries of the document that a text denotes. A mark of the byte order in front of it does
    not count. -/
def parse? (text : String) : Option Entries :=
  let cs := text.toList
  let cs := if cs.head? = some '\uFEFF' then cs.tail else cs
  (Reader.lines (cs.length + 1) {} cs).map (·.1.entries)

end DocModel.Toml
