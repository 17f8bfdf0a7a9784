/-!
# Digits and the Numbers They Write

Both document formats write numbers with digits of some base, the most
significant one first: whole parts, fractions and exponents in base ten, code
points in base sixteen, and in one of the formats integers in base two and eight
as well. A digit has one value whatever the base, so a single reading serves all
of them, and the base only decides which characters are digits and how much a
place is worth.

How digits are found in a text is a matter of the format, which may group them
or fix their number; what is read here has been found already. Only the sign that
may stand in front of them is found alike in both.

## Main definitions

* `hexValue?`: The value of a digit.
* `isDigitOf`: Whether a character is a digit of a base.
* `natOfDigits`: The number that some digits write.
* `numberIn?`: The same, of characters that may be no digits.
* `scanSign`: A sign in front of a number.

## Theorems

* `isDigitOf_of_numberIn?`: Only digits write a number.
-/

namespace StrataShell

namespace Text

/-- The value of a digit of base sixteen, in either case. -/
def hexValue? (c : Char) : Option Nat :=
  if c.isDigit then some (c.toNat - '0'.toNat)
  else if 'a' ≤ c ∧ c ≤ 'f' then some (c.toNat - 'a'.toNat + 10)
  else if 'A' ≤ c ∧ c ≤ 'F' then some (c.toNat - 'A'.toNat + 10)
  else none

/-- Whether a character is a digit of a base, which is sixteen at most. -/
def isDigitOf (base : Nat) (c : Char) : Bool :=
  match hexValue? c with
  | some value => value < base
  | none => false

/-- The number that some digits write in a base. -/
def natOfDigits (base : Nat) (digits : List Char) : Nat :=
  digits.foldl (fun n c => base * n + (hexValue? c).getD 0) 0

/-- The number that some characters write in a base, if all of them are digits
    of it. -/
def numberIn? (base : Nat) (cs : List Char) : Option Nat :=
  if cs.all (isDigitOf base) then some (natOfDigits base cs) else none

/-- A sign: whether it is a minus, and what follows it. -/
def scanSign (cs : List Char) : Bool × List Char :=
  match cs with
  | '-' :: rest => (true, rest)
  | '+' :: rest => (false, rest)
  | _ => (false, cs)

/-- Only digits write a number. -/
theorem isDigitOf_of_numberIn? {base n : Nat} {cs : List Char} (h : numberIn? base cs = some n) :
    ∀ c ∈ cs, isDigitOf base c = true := by
  by_cases hall : cs.all (isDigitOf base) = true
  · exact List.all_eq_true.mp hall
  · rw [numberIn?, if_neg hall] at h
    exact absurd h (by simp)

end Text

end StrataShell
