/-!
# The Range of Double-Precision Numbers

Documents may write numbers of any size, and those that no double-precision
number comes near to are refused. This module decides which those are, in exact
arithmetic on natural numbers, so that nothing hangs on the floating point of
the machine.

A number rounds to infinity when it is at least half a unit beyond the largest
finite one: at exactly half a unit the tie goes to the even neighbour, and that
is the infinite one.

## Main definitions

* `roundNat`: The nearest number with a significand of 53 bits.
* `overflows`: Whether a natural number rounds to infinity.
* `decimalOverflows`: The same for a decimal with an exponent.
-/

namespace StrataShell

namespace Binary64

/-- The number of bits of a significand. -/
def significandBits : Nat := 53

/-- Divide, and go to the nearest quotient, at a tie to the even one. -/
def divideToNearest (n d : Nat) : Nat :=
  let q := n / d
  let twice := 2 * (n % d)
  if twice < d then q
  else if twice = d then (if q % 2 = 0 then q else q + 1)
  else q + 1

/-- The nearest natural number whose significand has 53 bits, at a tie the one
    with the even significand. -/
def roundNat (n : Nat) : Nat :=
  let unit := Nat.pow 2 (n.log2 + 1 - significandBits)
  divideToNearest n unit * unit

/-- The least natural number that rounds to infinity. -/
def overflowBound : Nat := Nat.pow 2 1024 - Nat.pow 2 970

/-- Whether a natural number rounds to infinity. -/
def overflows (n : Nat) : Bool :=
  overflowBound ≤ n

/-- The largest power of ten that is finite. -/
def maxPowerOfTen : Nat := 308

/-- Whether the decimal `digits * 10 ^ exponent` rounds to infinity. Beyond the
    largest finite power of ten any number but zero does, and below one none
    does, so powers are computed only where they can matter. -/
def decimalOverflows (digits : Nat) (exponent : Int) : Bool :=
  if digits = 0 then false
  else if exponent > maxPowerOfTen then true
  else match exponent with
    | .ofNat e => overflows (digits * Nat.pow 10 e)
    | .negSucc e =>
      -- A number below `2 ^ (e + 1)` is below one after the division.
      if digits.log2 < e then false else overflowBound * Nat.pow 10 (e + 1) ≤ digits

end Binary64

end StrataShell
