/-!
# Powers

The powers that the formats of numbers are made of.

## Main definitions

* `twoTo`, `tenTo`: The powers of two and of ten.
-/

namespace DocModel

/-- The power of two with the given exponent. -/
def twoTo (n : Nat) : Nat := Nat.pow 2 n

/-- The power of ten with the given exponent. -/
def tenTo (n : Nat) : Nat := Nat.pow 10 n

end DocModel
