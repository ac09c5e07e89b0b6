import DocModel.Comment.Basic
import DocModel.Text.Blank
import DocModel.Text.Lines

/-!
# Reading documentation comments

A raw comment is stripped of its delimiters and of the star that leads each line. What is left is
read line by line. A line that starts with an at sign opens a tag and closes what was open; any
other line goes on with the open tag, or with the paragraph while no tag has been opened. A blank
line ends a paragraph. Three backquotes open and close a fence, and inside a fence neither an at
sign nor a blank line means anything.

## Main definitions

* `DocComment.strip`: The lines of a raw comment without their decoration.
* `DocTag.ofBody`: A tag from its name and the text behind it.
* `DocComment.parse?`: The comment that a raw text holds, if it says anything.
-/

namespace DocModel

open Text

namespace DocTag

/-- The tags whose first word, behind an optional type, is the name that they document. -/
def namesWithArgument : List String :=
  ["param", "arg", "argument", "property", "prop", "template", "typeParam", "typedef", "callback"]

/-- Cuts a text behind the brace that closes the brace before it, `depth` braces being open. -/
def splitBraced? : Nat → List Char → Option (List Char × List Char)
  | _, [] => none
  | depth, c :: cs =>
    if c = '\x7b' then (splitBraced? (depth + 1) cs).map fun (a, b) => (c :: a, b)
    else if c = '\x7d' then
      if depth ≤ 1 then some ([], cs)
      else (splitBraced? (depth - 1) cs).map fun (a, b) => (c :: a, b)
    else (splitBraced? depth cs).map fun (a, b) => (c :: a, b)

/-- Takes a type between braces off the front of a text. -/
def takeType (cs : List Char) : Option (List Char) × List Char :=
  match cs with
  | '\x7b' :: rest =>
    match splitBraced? 1 rest with
    | some (type, rest) => (some (trim type), trimStart rest)
    | none => (none, cs)
  | _ => (none, cs)

/-- The name in a word that may mark an optional parameter by brackets and give its default. -/
def argumentName (word : List Char) : List Char :=
  let bare := ((word.dropWhile (· == '[')).reverse.dropWhile (· == ']')).reverse
  bare.takeWhile (· != '=')

/-- Takes the documented name off the front of a text, with a dash that may follow it. -/
def takeArgument (cs : List Char) : List Char × List Char :=
  let (word, rest) := splitWord cs
  let rest := trimStart rest
  let rest :=
    match rest with
    | '-' :: rest => trimStart rest
    | _ => rest
  (argumentName word, rest)

/-- The tag with the given name and the text behind it. -/
def ofBody (name body : List Char) : DocTag :=
  let (type, rest) := takeType (trim body)
  let takesArgument := namesWithArgument.contains (String.ofList name) && !rest.isEmpty
  let (argument, rest) :=
    if takesArgument then
      let (argument, rest) := takeArgument rest
      (some argument, rest)
    else (none, rest)
  { name := String.ofList name
    argument := argument.map String.ofList
    comment := if (trim rest).isEmpty then none else some (String.ofList (trimEnd rest))
    type := type.map String.ofList }

end DocTag

namespace DocComment

/-- A line without the star that leads it and one space after the star. -/
def stripLine (line : List Char) : List Char :=
  match trimStart line with
  | '*' :: ' ' :: rest => rest
  | '*' :: rest => rest
  | rest => rest

/-- The lines of a raw comment, without the delimiters around them and the stars before them. -/
def strip (raw : List Char) : List (List Char) :=
  let body := trim raw
  let body := (['/', '*', '*'].isPrefixOf? body).getD body
  let body := (['*', '/'].isSuffixOf? body).getD body
  (lines body).map stripLine

/-- A comment that is being read. -/
structure Draft where
  /-- The paragraphs that have ended. -/
  paragraphs : List String := []
  /-- The paragraph that is open. -/
  paragraph : List Char := []
  /-- The tags that have ended. -/
  tags : List DocTag := []
  /-- The name and the text of the tag that is open. -/
  tag : Option (List Char × List Char) := none
  /-- Whether a fence is open. -/
  fenced : Bool := false

namespace Draft

/-- Ends the open paragraph; one without text leaves nothing. -/
def endParagraph (d : Draft) : Draft :=
  let text := trim d.paragraph
  { d with
    paragraphs := if text.isEmpty then d.paragraphs else d.paragraphs ++ [String.ofList text]
    paragraph := [] }

/-- Ends the open tag. -/
def endTag (d : Draft) : Draft :=
  match d.tag with
  | some (name, body) => { d with tags := d.tags ++ [DocTag.ofBody name body], tag := none }
  | none => d

/-- A text with one more line. -/
def addLine (text line : List Char) : List Char :=
  if text.isEmpty then trimEnd line else text ++ '\n' :: trimEnd line

/-- Reads one line. -/
def read (d : Draft) (line : List Char) : Draft :=
  let trimmed := trim line
  let d := if ['\x60', '\x60', '\x60'].isPrefixOf trimmed then { d with fenced := !d.fenced } else d
  match d.fenced, trimmed with
  | false, '@' :: rest =>
    let d := d.endParagraph.endTag
    let (name, body) := splitWord rest
    { d with tag := some (name, trimStart body) }
  | _, _ =>
    match d.tag with
    | some (name, body) => { d with tag := some (name, addLine body line) }
    | none =>
      if trimmed.isEmpty && !d.fenced then d.endParagraph
      else { d with paragraph := addLine d.paragraph line }

/-- The comment that has been read. -/
def finish (d : Draft) : DocComment :=
  let d := d.endParagraph.endTag
  { paragraphs := d.paragraphs, tags := d.tags }

end Draft

/-- The comment of the given lines. -/
def ofLines (ls : List (List Char)) : DocComment := (ls.foldl Draft.read {}).finish

/-- The comment that a raw text holds, if it has text or tags. -/
def parse? (raw : String) : Option DocComment :=
  let d := ofLines (strip raw.toList)
  if d.isEmpty then none else some d

end DocComment

end DocModel
