import DocModel.Number.Power

/-!
# Binary64 numbers

Numbers of the IEEE 754 format binary64, kept as their bits and computed with exactly: a finite
number is `m · 2 ^ q` for a natural `m` and an integer `q`, and a ratio of naturals is rounded to
the nearest such number, a tie going to the even `m`.

## Main definitions

* `Binary64`: The bits of a number.
* `Binary64.significand`, `Binary64.scale`: The `m` and the `q` of a finite number.
* `Binary64.ofRatio`, `Binary64.ofDecimal`: The nearest number to a ratio and to a decimal.
-/

namespace DocModel

/-- A number of the format binary64, as its bits. -/
structure Binary64 where
  /-- Sign, eleven bits of exponent and fifty-two bits of fraction, from the top. -/
  bits : UInt64
deriving DecidableEq, Inhabited

namespace Binary64

/-- Whether the sign bit is set. -/
def isNegative (x : Binary64) : Bool := x.bits.toNat / twoTo 63 == 1

/-- The exponent field. -/
def exponentField (x : Binary64) : Nat := x.bits.toNat / twoTo 52 % twoTo 11

/-- The fraction field. -/
def fractionField (x : Binary64) : Nat := x.bits.toNat % twoTo 52

/-- Whether the number is neither infinite nor undefined. -/
def isFinite (x : Binary64) : Bool := x.exponentField != 2047

/-- Whether the bits stand for no number. -/
def isUndefined (x : Binary64) : Bool := x.exponentField == 2047 && x.fractionField != 0

/-- The whole number `m` in `m · 2 ^ q`. -/
def significand (x : Binary64) : Nat :=
  if x.exponentField = 0 then x.fractionField else x.fractionField + twoTo 52

/-- The exponent `q` in `m · 2 ^ q`. -/
def scale (x : Binary64) : Int :=
  if x.exponentField = 0 then -1074 else (x.exponentField : Int) - 1075

/-- A number from its sign and the bits below the sign. -/
def ofMagnitude (negative : Bool) (magnitude : Nat) : Binary64 :=
  ⟨UInt64.ofNat ((if negative then twoTo 63 else 0) + magnitude)⟩

/-- The infinity with the given sign. -/
def infinity (negative : Bool) : Binary64 := ofMagnitude negative (2047 * twoTo 52)

/-- The zero with the given sign. -/
def zero (negative : Bool) : Binary64 := ofMagnitude negative 0

/-- The quotient rounded to the nearest whole number, a tie going to the even one. -/
def roundQuotient (num den : Nat) : Nat :=
  let floor := num / den
  let twice := 2 * (num % den)
  if twice > den || (twice == den && floor % 2 == 1) then floor + 1 else floor

/-- `num / den / 2 ^ q` as a quotient of whole numbers. -/
def unscale (num den : Nat) (q : Int) : Nat × Nat :=
  if q < 0 then (num * twoTo q.natAbs, den) else (num, den * twoTo q.natAbs)

/-- The exponent that leaves a significand of fifty-three bits, or the least exponent there is. -/
def scaleFor (num den : Nat) : Int :=
  let estimate := max (-1074) ((Nat.log2 num : Int) - (Nat.log2 den : Int) - 53)
  let (n, d) := unscale num den estimate
  if n / d ≥ twoTo 53 then estimate + 1 else estimate

/-- The nearest number to `num / den`. -/
def ofRatio (negative : Bool) (num den : Nat) : Binary64 :=
  if num = 0 then zero negative
  else
    let q := scaleFor num den
    let (n, d) := unscale num den q
    let m := roundQuotient n d
    -- A significand that rounding carried to `2 ^ 53` moves on to the next exponent by itself.
    let magnitude := if m < twoTo 52 then m else (q + 1075).toNat * twoTo 52 + (m - twoTo 52)
    if magnitude ≥ 2047 * twoTo 52 then infinity negative else ofMagnitude negative magnitude

/-- The nearest number to `digits · 10 ^ exponent`. Decimals that lie far outside the range of the
    format are decided by their size alone. -/
def ofDecimal (negative : Bool) (digits : Nat) (exponent : Int) : Binary64 :=
  let size := ((Nat.toDigits 10 digits).length : Int) + exponent
  if digits = 0 then zero negative
  else if size > 310 then infinity negative
  else if size < -330 then zero negative
  else if exponent < 0 then ofRatio negative digits (tenTo exponent.natAbs)
  else ofRatio negative (digits * tenTo exponent.natAbs) 1

/-- Whether the number is finite and whole. -/
def isWhole (x : Binary64) : Bool :=
  x.isFinite && (x.scale ≥ 0 || x.significand % twoTo x.scale.natAbs == 0)

/-- The distance to zero, rounded down to a whole number. -/
def wholePart (x : Binary64) : Nat :=
  if x.scale < 0 then x.significand / twoTo x.scale.natAbs
  else x.significand * twoTo x.scale.natAbs

end Binary64

end DocModel
