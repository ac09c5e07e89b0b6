import DocModel.Number.Binary64

/-!
# Shortest decimals

The decimal with the fewest digits among those that read back as a given binary64 number, and of
these the nearest to it. Where two are equally near, it is for the caller to say which is taken.

A decimal reads back as the number when it lies between the midpoints to the neighbouring numbers;
the midpoints themselves belong to an even significand. With `k` digits the decimals form a grid,
and if any point of the grid lies between the midpoints, so does one of the two grid points around
the number. So the grids are tried from the coarsest on, looking at these two points only. Seventeen
digits always suffice.

## Main definitions

* `Decimal`: A decimal `digits · 10 ^ exponent`.
* `Tie`: Which of two neighbours on a grid stands for a number halfway between them.
* `Binary64.shortest`: The shortest decimal of a finite number other than zero.
-/

namespace DocModel

/-- The decimal `digits · 10 ^ exponent`. -/
structure Decimal where
  /-- The digits, as a number. -/
  digits : Nat
  /-- The power of ten of the last digit. -/
  exponent : Int
deriving DecidableEq, Inhabited

namespace Decimal

/-- Moves zeros from the end of the digits into the exponent. -/
def dropZeros : Nat → Decimal → Decimal
  | 0, d => d
  | n + 1, d =>
    if d.digits % 10 == 0 && d.digits != 0 then dropZeros n ⟨d.digits / 10, d.exponent + 1⟩ else d

end Decimal

/-- Which of two neighbours on a grid stands for a number halfway between them. -/
inductive Tie where
  /-- The one farther from zero. -/
  | away
  /-- The one whose last digit is even. -/
  | even
deriving DecidableEq, Inhabited

namespace Binary64

/-- The number and the midpoints around it, over one denominator. -/
structure Neighbourhood where
  /-- The midpoint below. -/
  low : Nat
  /-- The number. -/
  mid : Nat
  /-- The midpoint above. -/
  high : Nat
  /-- The common denominator. -/
  den : Nat
  /-- Whether the midpoints read back as the number. -/
  closed : Bool

/-- The neighbourhood of a finite number. The gap below a power of two is half as wide. -/
def neighbourhood (x : Binary64) : Neighbourhood :=
  let m := x.significand
  let narrow := m = twoTo 52 && x.exponentField > 1
  let q := x.scale - 2
  let unit := if q < 0 then 1 else twoTo q.natAbs
  { low := (4 * m - if narrow then 1 else 2) * unit
    mid := 4 * m * unit
    high := (4 * m + 2) * unit
    den := if q < 0 then twoTo q.natAbs else 1
    closed := m % 2 == 0 }

/-- The least `j` with `10 ^ j · num ≥ den`, looking no further than the given bound. -/
def leadingPlaces (den : Nat) : Nat → Nat → Nat
  | 0, _ => 0
  | bound + 1, num => if num ≥ den then 0 else leadingPlaces den bound (num * 10) + 1

/-- The `k` with `10 ^ (k - 1) ≤ num / den < 10 ^ k`. -/
def decimalSize (num den : Nat) : Int :=
  if num ≥ den then ((Nat.toDigits 10 (num / den)).length : Int)
  else 1 - (leadingPlaces den 400 num : Int)

/-- The one of `below` and the point above it that is nearer to `num / den`. -/
def nearerPoint (tie : Tie) (num den below : Nat) : Nat :=
  match compare (2 * (num - below * den)) den, tie with
  | .lt, _ => below
  | .gt, _ | .eq, .away => below + 1
  | .eq, .even => if below % 2 == 0 then below else below + 1

/-- The point of a grid that reads back as the number, if there is one around it. -/
def gridPoint? (tie : Tie) (h : Neighbourhood) (step : Int) : Option Decimal :=
  let up := if step < 0 then tenTo step.natAbs else 1
  let den := if step < 0 then h.den else h.den * tenTo step.natAbs
  let below := h.mid * up / den
  let above := below + 1
  let lowFits := if h.closed then h.low * up ≤ below * den else h.low * up < below * den
  let highFits := if h.closed then above * den ≤ h.high * up else above * den < h.high * up
  if lowFits && highFits then some ⟨nearerPoint tie (h.mid * up) den below, step⟩
  else if lowFits then some ⟨below, step⟩
  else if highFits then some ⟨above, step⟩
  else none

/-- The first grid with a point that fits, from `n - left` digits up to `n`. -/
def searchGrids (tie : Tie) (h : Neighbourhood) (size : Int) (n : Nat) : Nat → Decimal
  | 0 => (gridPoint? tie h (size - n)).getD ⟨h.mid / h.den, 0⟩
  | left + 1 =>
    match gridPoint? tie h (size - (n - (left + 1) : Nat)) with
    | some d => d
    | none => searchGrids tie h size n left

/-- The shortest decimal that reads back as a finite number other than zero, nearest to it among
    those of its length. -/
def shortest (tie : Tie) (x : Binary64) : Decimal :=
  let h := x.neighbourhood
  (searchGrids tie h (decimalSize h.mid h.den) 17 16).dropZeros 20

end Binary64

end DocModel
