import DocModel.Number.Shortest

/-!
# Number texts

How binary64 numbers are written. A *plain* text is positional whatever the size of the number, and
a whole number has no point. A *literal* is a number as a program would write it: a whole number of
moderate size is written with all its digits, any other number as a plain text. A *data* text always
shows that the number is not an integer, by a point or by an exponent, and uses an exponent where
the point would stand far outside the digits. Of two shortest decimals that are equally near to a
number, plain texts take the one farther from zero, and data texts the one that ends in an even
digit.

## Main definitions

* `Decimal.positional`: Digits with a point where it belongs.
* `Binary64.plain`, `Binary64.literal`, `Binary64.data`: The three texts.
-/

namespace DocModel

namespace Decimal

/-- The digits of the decimal. -/
def digitChars (d : Decimal) : List Char := Nat.toDigits 10 d.digits

/-- The place of the decimal point, counted from the first digit. -/
def point (d : Decimal) : Int := (d.digitChars.length : Int) + d.exponent

/-- The decimal with a point where it belongs, and `tail` after it where it is whole. -/
def positional (d : Decimal) (tail : String) : String :=
  let cs := d.digitChars
  let k := d.point
  if d.exponent ≥ 0 then
    String.ofList (cs ++ List.replicate d.exponent.natAbs '0') ++ tail
  else if k > 0 then
    String.ofList (cs.take k.natAbs ++ '.' :: cs.drop k.natAbs)
  else
    String.ofList ('0' :: '.' :: List.replicate k.natAbs '0' ++ cs)

/-- The decimal with one digit before the point and a power of ten behind it, whose sign is always
    written. -/
def scientific (d : Decimal) : String :=
  let body :=
    match d.digitChars with
    | c :: c' :: cs => String.ofList (c :: '.' :: c' :: cs)
    | cs => String.ofList cs
  let k := d.point - 1
  body ++ "e" ++ (if k < 0 then "-" else "+") ++ toString k.natAbs

end Decimal

namespace Binary64

/-- The sign of a number as it stands before its digits. -/
def signText (x : Binary64) : String := if x.isNegative then "-" else ""

/-- Whether the number is a zero. -/
def isZero (x : Binary64) : Bool := x.exponentField == 0 && x.fractionField == 0

/-- The positional text with the fewest digits. -/
def plain (x : Binary64) : String :=
  if x.isUndefined then "NaN"
  else if !x.isFinite then x.signText ++ "inf"
  else if x.isZero then x.signText ++ "0"
  else x.signText ++ (x.shortest .away).positional ""

/-- The text of a number literal. Whole numbers below `10 ^ 21` have all their digits. -/
def literal (x : Binary64) : String :=
  if x.isWhole && x.wholePart < tenTo 21 then x.signText ++ toString x.wholePart
  else if x.isUndefined then "NaN"
  else if !x.isFinite then x.signText ++ "Infinity"
  else x.plain

/-- The text of a finite number in a data file. -/
def data (x : Binary64) : String :=
  if x.isZero then x.signText ++ "0.0"
  else
    let d := x.shortest .even
    if d.point > 16 || d.point ≤ -5 then x.signText ++ d.scientific
    else x.signText ++ d.positional ".0"

end Binary64

end DocModel
