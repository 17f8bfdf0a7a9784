import StrataShell.Binary64
import StrataShell.Text.Digits

/-!
# Numbers in JSON

The literal form of a number, and whether it denotes one. A literal has an
optional minus sign, a whole part without leading zeros, and optionally a
fraction and an exponent.

A reader collects the digits into a significand of 64 bits and counts in the
exponent the places it had to leave out; the value is the product of two
double-precision numbers, the rounded significand and the rounded power of ten.
A literal denotes nothing when that product is infinite. Rounding twice makes
the border slightly different from that of the exact decimal, which is why the
two factors are rounded one by one here.

## Main definitions

* `scan?`: The number at the start of a text.
* `Scanned.isFinite`: Whether it denotes a number.
-/

namespace StrataShell

namespace Json

namespace Number

/-- The parts of a literal. -/
structure Literal where
  /-- The digits before the point. -/
  whole : List Char
  /-- The digits behind the point. -/
  fraction : List Char := []
  negativeExponent : Bool := false
  exponent : List Char := []

/-- The leading digits and the rest. -/
def digits (cs : List Char) : List Char × List Char :=
  (cs.takeWhile Char.isDigit, cs.dropWhile Char.isDigit)

/-- The whole part: a zero alone, or digits that begin with another. -/
def scanWhole? (cs : List Char) : Option (List Char × List Char) :=
  match cs with
  | '0' :: rest => some (['0'], rest)
  | _ =>
    match digits cs with
    | ([], _) => none
    | found => some found

/-- The fraction, if a point announces one. -/
def scanFraction? (cs : List Char) : Option (List Char × List Char) :=
  match cs with
  | '.' :: rest =>
    match digits rest with
    | ([], _) => none
    | found => some found
  | _ => some ([], cs)

/-- The exponent, if its letter announces one. -/
def scanExponent? (cs : List Char) : Option ((Bool × List Char) × List Char) :=
  match cs with
  | c :: rest =>
    if c = 'e' ∨ c = 'E' then
      let (negative, rest) := Text.scanSign rest
      match digits rest with
      | ([], _) => none
      | (ds, rest) => some ((negative, ds), rest)
    else some ((false, []), cs)
  | [] => some ((false, []), [])

/-- The number at the start of a text, without its sign, and the rest. -/
def scan? (cs : List Char) : Option (Literal × List Char) := do
  let unsigned := match cs with
    | '-' :: rest => rest
    | _ => cs
  let (whole, rest) ← scanWhole? unsigned
  let (fraction, rest) ← scanFraction? rest
  let ((negative, exponent), rest) ← scanExponent? rest
  some ({ whole := whole, fraction := fraction, negativeExponent := negative,
          exponent := exponent }, rest)

/-- The largest significand. -/
def maxSignificand : Nat := Nat.pow 2 64 - 1

/-- Take up digits as long as the significand can hold them: the significand
    and the digits left over. -/
def takeUp (significand : Nat) : List Char → Nat × List Char
  | [] => (significand, [])
  | d :: rest =>
    let next := 10 * significand + Text.natOfDigits 10 [d]
    if next > maxSignificand then (significand, d :: rest) else takeUp next rest

/-- The significand and the power of ten that a literal stands for. -/
def Literal.scientific (l : Literal) : Nat × Int :=
  let (first, wholeLeft) := takeUp 0 l.whole
  let (significand, fractionLeft) := takeUp first l.fraction
  let written : Int := Text.natOfDigits 10 l.exponent
  let exponent := if l.negativeExponent then -written else written
  let places : Int := l.fraction.length - fractionLeft.length
  (significand, wholeLeft.length - places + exponent)

/-- Whether the value of a literal is finite. -/
def Literal.isFinite (l : Literal) : Bool :=
  let (significand, exponent) := l.scientific
  match exponent with
  | .negSucc _ => true
  | .ofNat e =>
    significand == 0 ||
      (e ≤ Binary64.maxPowerOfTen &&
        !Binary64.overflows (Binary64.roundNat significand * Binary64.roundNat (Nat.pow 10 e)))

end Number

end Json

end StrataShell
