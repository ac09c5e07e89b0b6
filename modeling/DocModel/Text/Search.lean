/-!
# Searching and replacing in texts

Texts are lists of characters. Every search goes from left to right and takes the first place that
fits; replacing goes on after the place it replaced, so that what was put in is not searched.

## Main definitions

* `Text.occursIn`: Whether one text is a stretch of another.
* `Text.splitOnce?`: The two sides of the first occurrence.
* `Text.replaceAll`: Every occurrence replaced.
* `Text.joinWith`: Texts with a separator between them.
-/

namespace DocModel.Text

/-- Whether `pattern` stands somewhere in the text. The empty pattern stands everywhere. -/
def occursIn (pattern : List Char) : List Char → Bool
  | [] => pattern.isEmpty
  | c :: cs => pattern.isPrefixOf (c :: cs) || occursIn pattern cs

/-- What stands before and after the first occurrence of `pattern`. -/
def splitOnce? (pattern : List Char) : List Char → Option (List Char × List Char)
  | [] => if pattern.isEmpty then some ([], []) else none
  | c :: cs =>
    match pattern.isPrefixOf? (c :: cs) with
    | some rest => some ([], rest)
    | none => (splitOnce? pattern cs).map fun (before, after) => (c :: before, after)

/-- The text with each occurrence of `pattern` replaced by `value`, after `skip` more characters of
    an occurrence that has been replaced. -/
def replaceFrom (pattern value : List Char) : Nat → List Char → List Char
  | _, [] => []
  | skip + 1, _ :: cs => replaceFrom pattern value skip cs
  | 0, c :: cs =>
    if pattern.isPrefixOf (c :: cs) then
      value ++ replaceFrom pattern value (pattern.length - 1) cs
    else c :: replaceFrom pattern value 0 cs

/-- The text with each occurrence of a non-empty `pattern` replaced by `value`. -/
def replaceAll (pattern value text : List Char) : List Char := replaceFrom pattern value 0 text

/-- Drops `c` from the end as often as it stands there. -/
def dropEnd (c : Char) (cs : List Char) : List Char := (cs.reverse.dropWhile (· == c)).reverse

/-- The texts in order, with `separator` between neighbours. -/
def joinWith (separator : String) : List String → String
  | [] => ""
  | [s] => s
  | s :: t :: rest => s ++ separator ++ joinWith separator (t :: rest)

/-- Whether `pattern` stands somewhere in a string. -/
def contains (text pattern : String) : Bool := occursIn pattern.toList text.toList

/-- The string without a suffix that it ends in. -/
def stripSuffix? (text suffix : String) : Option String :=
  (suffix.toList.isSuffixOf? text.toList).map String.ofList

/-- The string without a start that it has. -/
def stripStart? (text start : String) : Option String :=
  (start.toList.isPrefixOf? text.toList).map String.ofList

/-- Whether the string ends in `suffix`. -/
def endsWith (text suffix : String) : Bool := suffix.toList.isSuffixOf text.toList

end DocModel.Text
