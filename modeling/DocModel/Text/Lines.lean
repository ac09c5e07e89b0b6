/-!
# Lines

A line ends at a line feed, and one carriage return just before it belongs to the ending. A text
that ends with a line feed has no empty line after it.

## Main definitions

* `Text.lines`: The lines of a text, without their endings.

## Theorems

* `Text.lines_feed`: A line feed ends an empty line.
-/

namespace DocModel.Text

/-- The lines of a text, without their endings. -/
def lines : List Char → List (List Char)
  | [] => []
  | '\n' :: cs => [] :: lines cs
  | '\r' :: '\n' :: cs => [] :: lines cs
  | c :: cs =>
    match lines cs with
    | [] => [[c]]
    | l :: ls => (c :: l) :: ls

@[simp]
theorem lines_feed (cs : List Char) : lines ('\n' :: cs) = [] :: lines cs := by
  simp [lines]

end DocModel.Text
