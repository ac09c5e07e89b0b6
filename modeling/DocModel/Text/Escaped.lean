import DocModel.Text.Extending
import DocModel.Text.Invisible

/-!
# Escaped text

A text as a diagnostic shows it: between double quotation marks, with everything that could be
misread spelled out. The quotation mark and the backslash take a backslash; the null character, the
tab, the line feed and the carriage return have letters; a character without a glyph, and one that
would join the character before it, is spelled by its code point in hexadecimal digits between
braces.

## Main definitions

* `Text.hexDigits`: Lower-case hexadecimal digits.
* `Text.escapeChar`, `Text.escape`: The shown form of a character and of a text.
-/

namespace DocModel.Text

/-- The digits of a number in base sixteen, in lower case, without leading zeros. -/
def hexDigits (n : Nat) : List Char := Nat.toDigits 16 n

/-- The shown form of one character. -/
def escapeChar (c : Char) : List Char :=
  if c = '\x00' then ['\\', '0']
  else if c = '\t' then ['\\', 't']
  else if c = '\r' then ['\\', 'r']
  else if c = '\n' then ['\\', 'n']
  else if c = '\\' then ['\\', '\\']
  else if c = '"' then ['\\', '"']
  else if isExtending c || isInvisible c then
    ['\\', 'u', '\x7b'] ++ hexDigits c.toNat ++ ['\x7d']
  else [c]

/-- The shown form of a text. -/
def escape (text : String) : String :=
  String.ofList ('"' :: text.toList.flatMap escapeChar ++ ['"'])

end DocModel.Text
