/-!
# Blank characters

The Unicode property White_Space. Trimming, the end of a word and the notion of an empty line all go
by it, so a no-break space is as blank as a tab.

## Main definitions

* `Text.isBlank`: Membership of a character.
* `Text.trimStart`, `Text.trimEnd`, `Text.trim`: A text without the blanks at its ends.
* `Text.splitWord`: A text cut before its first blank.

## Theorems

* `Text.isBlank_of_isWhitespace`: The blanks of ASCII are among them.
* `Text.splitWord_append`: Cutting loses nothing.
-/

namespace DocModel.Text

/-- Code points with the property White_Space, as ranges. -/
def blankRanges : List (Nat × Nat) :=
  [(0x9, 0xD), (0x20, 0x20), (0x85, 0x85), (0xA0, 0xA0), (0x1680, 0x1680), (0x2000, 0x200A),
   (0x2028, 0x2029), (0x202F, 0x202F), (0x205F, 0x205F), (0x3000, 0x3000)]

/-- Whether a character is blank. -/
def isBlank (c : Char) : Bool :=
  blankRanges.any fun r => r.1 ≤ c.toNat && c.toNat ≤ r.2

/-- Drops the blanks at the start. -/
def trimStart (cs : List Char) : List Char := cs.dropWhile isBlank

/-- Drops the blanks at the end. -/
def trimEnd (cs : List Char) : List Char := (cs.reverse.dropWhile isBlank).reverse

/-- Drops the blanks at both ends. -/
def trim (cs : List Char) : List Char := trimEnd (trimStart cs)

/-- Cuts before the first blank: the leading word, and the rest with its blanks. -/
def splitWord (cs : List Char) : List Char × List Char :=
  (cs.takeWhile (fun c => !isBlank c), cs.dropWhile (fun c => !isBlank c))

theorem isBlank_of_isWhitespace {c : Char} (h : c.isWhitespace = true) : isBlank c = true := by
  simp only [Char.isWhitespace, Bool.or_eq_true, decide_eq_true_eq] at h
  rcases h with ((rfl | rfl) | rfl) | rfl <;> decide

theorem splitWord_append (cs : List Char) : (splitWord cs).1 ++ (splitWord cs).2 = cs := by
  simp [splitWord]

end DocModel.Text
