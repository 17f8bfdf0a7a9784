import StrataShell.Text.Digits

/-!
# Quoted Text in JSON

Text stands between quotation marks. A quotation mark, a backslash and the
control characters are written as escapes; everything else stands for itself.
Writing uses the shortest escape there is, with lower-case digits in the long
form. Reading accepts every escape of the format.

The long form gives a UTF-16 unit, not a character, so what is read is a list
of code points in which halves of a surrogate pair may occur. `ofUnits?` joins
the pairs, and fails where a half has no partner.

## Main definitions

* `quote`: Text as it is written.
* `scanUnits?`: The code points up to the closing mark.
* `ofUnits?`: The text that some code points stand for.

## Theorems

* `not_half`: A character is no half of a surrogate pair.
* `ofUnits?_toNat`: A character that is written as one code point is read as it
  is.
-/

namespace StrataShell

namespace Json

/-- A digit of base sixteen, in lower case. -/
def hexDigit (n : Nat) : Char :=
  if n < 10 then Char.ofNat ('0'.toNat + n) else Char.ofNat ('a'.toNat + (n - 10))

/-- A character as it is written inside quotation marks. -/
def escape (c : Char) : List Char :=
  if c = '"' then ['\\', '"']
  else if c = '\\' then ['\\', '\\']
  else if c = '\x08' then ['\\', 'b']
  else if c = '\x0c' then ['\\', 'f']
  else if c = '\n' then ['\\', 'n']
  else if c = '\r' then ['\\', 'r']
  else if c = '\t' then ['\\', 't']
  else if c.toNat < 0x20 then
    ['\\', 'u', '0', '0', hexDigit (c.toNat / 16), hexDigit (c.toNat % 16)]
  else [c]

/-- Text as it is written, with its quotation marks. -/
def quote (cs : List Char) : List Char :=
  '"' :: (cs.flatMap escape ++ ['"'])

/-- The code point that a short escape stands for. -/
def shortEscape? (c : Char) : Option Nat :=
  match c with
  | '"' | '\\' | '/' => some c.toNat
  | 'b' => some 0x08
  | 'f' => some 0x0C
  | 'n' => some 0x0A
  | 'r' => some 0x0D
  | 't' => some 0x09
  | _ => none

/-- The number that four digits of base sixteen write. -/
def hexUnit? (a b c d : Char) : Option Nat :=
  Text.numberIn? 16 [a, b, c, d]

/-- The code points up to the closing quotation mark, and what follows it.
    Control characters must have been escaped. -/
def scanUnits? : List Char → Option (List Nat × List Char)
  | [] => none
  | '"' :: rest => some ([], rest)
  | '\\' :: 'u' :: a :: b :: c :: d :: rest => do
    let unit ← hexUnit? a b c d
    let (units, rest) ← scanUnits? rest
    some (unit :: units, rest)
  | '\\' :: c :: rest => do
    let unit ← shortEscape? c
    let (units, rest) ← scanUnits? rest
    some (unit :: units, rest)
  | c :: rest =>
    if c = '\\' ∨ c.toNat < 0x20 then none
    else do
      let (units, rest) ← scanUnits? rest
      some (c.toNat :: units, rest)

/-- Whether a code point is the first half of a surrogate pair. -/
def isHighHalf (n : Nat) : Bool := 0xD800 ≤ n && n < 0xDC00

/-- Whether a code point is the second half of a surrogate pair. -/
def isLowHalf (n : Nat) : Bool := 0xDC00 ≤ n && n < 0xE000

/-- The character that a surrogate pair stands for. -/
def joinHalves (high low : Nat) : Char :=
  Char.ofNat (0x10000 + (high - 0xD800) * 0x400 + (low - 0xDC00))

/-- The text that some code points stand for, unless a half of a pair stands
    alone. -/
def ofUnits? : List Nat → Option (List Char)
  | [] => some []
  | [unit] => if isHighHalf unit || isLowHalf unit then none else some [Char.ofNat unit]
  | unit :: next :: rest =>
    if isHighHalf unit then
      if isLowHalf next then (ofUnits? rest).map (joinHalves unit next :: ·) else none
    else if isLowHalf unit then none
    else (ofUnits? (next :: rest)).map (Char.ofNat unit :: ·)

/-- A character is no half of a surrogate pair. -/
theorem not_half (c : Char) : isHighHalf c.toNat = false ∧ isLowHalf c.toNat = false := by
  have hv : c.toNat < 0xD800 ∨ (0xDFFF < c.toNat ∧ c.toNat < 0x110000) := c.valid
  simp only [isHighHalf, isLowHalf, Bool.and_eq_false_iff, decide_eq_false_iff_not]
  omega

/-- A character that is written as one code point is read as it is. -/
theorem ofUnits?_toNat (c : Char) (units : List Nat) :
    ofUnits? (c.toNat :: units) = (ofUnits? units).map (c :: ·) := by
  rcases not_half c with ⟨hhigh, hlow⟩
  cases units <;> simp [ofUnits?, hhigh, hlow]

end Json

end StrataShell
