/-!
# Quoted text

A string literal as it is written in a program: between double quotation marks, with a backslash
before a quotation mark and a backslash, and the letters `n`, `r` and `t` for the line feed, the
carriage return and the tab. All other characters stand for themselves.

## Main definitions

* `Text.quoteChar`, `Text.quoteBody`: The written form of a character and of a text.
* `Text.quote`: The written form between its quotation marks.
* `Text.unquoteBody`: Reads a written form back, refusing what no text is written as.
-/

namespace DocModel.Text

/-- The written form of one character. -/
def quoteChar (c : Char) : List Char :=
  if c = '"' then ['\\', '"']
  else if c = '\\' then ['\\', '\\']
  else if c = '\n' then ['\\', 'n']
  else if c = '\r' then ['\\', 'r']
  else if c = '\t' then ['\\', 't']
  else [c]

/-- The written form of a text, without the quotation marks around it. -/
def quoteBody (cs : List Char) : List Char := cs.flatMap quoteChar

/-- The written form of a text. -/
def quote (text : String) : String := String.ofList ('"' :: quoteBody text.toList ++ ['"'])

/-- The character that a letter after a backslash stands for. -/
def unquoteLetter (c : Char) : Option Char :=
  if c = '"' then some '"'
  else if c = '\\' then some '\\'
  else if c = 'n' then some '\n'
  else if c = 'r' then some '\r'
  else if c = 't' then some '\t'
  else none

/-- Whether a character is never written as itself. -/
def isQuoteMarked (c : Char) : Bool := quoteChar c != [c]

/-- Reads the body of a written form. -/
def unquoteBody : List Char → Option (List Char)
  | [] => some []
  | '\\' :: c :: cs => do
    let d ← unquoteLetter c
    let ds ← unquoteBody cs
    return d :: ds
  | c :: cs => if isQuoteMarked c then none else (unquoteBody cs).map (c :: ·)

end DocModel.Text
