import StrataShell.Binary64
import StrataShell.Text.Digits

/-!
# Numbers in TOML

Integers are written in base ten with an optional sign, or without one in base
two, eight or sixteen behind a marker. They have to fit into 64 bits with a
sign. Anything in base ten with a fraction or an exponent is a floating point
number, and so are the words for infinity and for no number.

Digits may be grouped by underscores, one at a time and only between two
digits. In base ten a whole part does not begin with a zero unless it is one,
while a fraction and an exponent may.

A positive floating point number that rounds to infinity is a fault; a
negative one is not.

## Main definitions

* `scanDigits?`: A run of digits with underscores among them.
* `scanNumber?`: The number at the start of a text.
-/

namespace StrataShell

namespace Toml

namespace Number

/-- The rest of a run of digits, without the underscores among them, and what
    follows it. -/
def moreDigits? (isDigit : Char → Bool) : List Char → Option (List Char × List Char)
  | [] => some ([], [])
  | '_' :: c :: rest =>
    if isDigit c then do
      let (digits, rest) ← moreDigits? isDigit rest
      some (c :: digits, rest)
    else none
  | c :: rest =>
    if isDigit c then do
      let (digits, rest) ← moreDigits? isDigit rest
      some (c :: digits, rest)
    else if c = '_' then none
    else some ([], c :: rest)

/-- A run of digits, without the underscores among them, and what follows
    it. -/
def scanDigits? (isDigit : Char → Bool) (cs : List Char) : Option (List Char × List Char) :=
  match cs with
  | [] => none
  | c :: rest =>
    if isDigit c then do
      let (digits, rest) ← moreDigits? isDigit rest
      some (c :: digits, rest)
    else none

/-- The least natural number that no integer reaches. -/
def integerBound : Nat := Nat.pow 2 63

/-- An integer behind the marker of its base. -/
def scanInBase? (base : Nat) (cs : List Char) : Option (List Char) := do
  let (digits, rest) ← scanDigits? (Text.isDigitOf base) cs
  if Text.natOfDigits base digits < integerBound then some rest else none

/-- The whole part of a number in base ten: a zero alone, or digits that begin
    with another. -/
def scanWhole? (cs : List Char) : Option (List Char × List Char) :=
  match cs with
  | '0' :: rest => some (['0'], rest)
  | _ => scanDigits? Char.isDigit cs

/-- The fraction, if a point announces one. -/
def scanFraction? (cs : List Char) : Option (List Char × List Char) :=
  match cs with
  | '.' :: rest => scanDigits? Char.isDigit rest
  | _ => some ([], cs)

/-- The exponent, if its letter announces one. -/
def scanExponent? (cs : List Char) : Option (Int × List Char) :=
  match cs with
  | [] => some (0, [])
  | c :: rest =>
    if c = 'e' ∨ c = 'E' then do
      let (negative, rest) := Text.scanSign rest
      let (digits, rest) ← scanDigits? Char.isDigit rest
      let size : Int := Text.natOfDigits 10 digits
      some (if negative then -size else size, rest)
    else some (0, cs)

/-- Whether a text goes on with a fraction or an exponent. -/
def isFloatTail (cs : List Char) : Bool :=
  match cs with
  | c :: _ => c == '.' || c == 'e' || c == 'E'
  | [] => false

/-- A number in base ten, its sign having been passed. -/
def scanDecimal? (negative : Bool) (cs : List Char) : Option (List Char) := do
  let (whole, rest) ← scanWhole? cs
  if isFloatTail rest then
    let (fraction, rest) ← scanFraction? rest
    let (exponent, rest) ← scanExponent? rest
    let digits := Text.natOfDigits 10 (whole ++ fraction)
    if !negative && Binary64.decimalOverflows digits (exponent - fraction.length) then none
    else some rest
  else
    let size := Text.natOfDigits 10 whole
    if size < integerBound ∨ (negative ∧ size = integerBound) then some rest else none

/-- A number whose sign has been passed. -/
def scanUnsigned? (negative : Bool) (cs : List Char) : Option (List Char) :=
  match cs with
  | 'i' :: 'n' :: 'f' :: rest => some rest
  | 'n' :: 'a' :: 'n' :: rest => some rest
  | _ => scanDecimal? negative cs

end Number

/-- What follows the number at the start of a text. -/
def scanNumber? (cs : List Char) : Option (List Char) :=
  match cs with
  | '0' :: 'x' :: rest => Number.scanInBase? 16 rest
  | '0' :: 'o' :: rest => Number.scanInBase? 8 rest
  | '0' :: 'b' :: rest => Number.scanInBase? 2 rest
  | _ =>
    let (negative, rest) := Text.scanSign cs
    Number.scanUnsigned? negative rest

end Toml

end StrataShell
