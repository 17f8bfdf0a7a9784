import StrataShell.Text.Digits

/-!
# Dates and Times in TOML

A moment is written as a date, as a time of day, or as both, and with both it
may have an offset. Every part has its fixed number of digits and its range:
months have the days of the calendar, leap years included, and a minute may
have a sixtieth second.

The moment is kept in one canonical text: a capital letter between date and
time, nine digits of a second at most and no zeros at their end, and an offset
of nothing written with a plus sign unless it was given by its letter.

A date may be followed by a space that belongs to the document and not to the
moment. `scanMoment?` therefore takes the space only if a time follows.

## Main definitions

* `daysIn`: The number of days of a month.
* `isMoment`: Whether a text begins like a date or a time.
* `scanMoment?`: The moment at the start of a text, in canonical form.
-/

namespace StrataShell

namespace Toml

namespace Calendar

/-- Whether a year has a leap day. -/
def isLeap (year : Nat) : Bool :=
  year % 4 == 0 && (year % 100 != 0 || year % 400 == 0)

/-- The number of days of a month. -/
def daysIn (year month : Nat) : Nat :=
  if month = 2 then (if isLeap year then 29 else 28)
  else if month = 4 ∨ month = 6 ∨ month = 9 ∨ month = 11 then 30
  else 31

/-- A number of exactly so many digits, its value between two bounds, and what
    follows it. -/
def scanPart? (count low high : Nat) (cs : List Char) : Option (Nat × List Char) :=
  let digits := cs.take count
  if digits.length = count ∧ digits.all Char.isDigit then
    let n := Text.natOfDigits 10 digits
    if low ≤ n ∧ n ≤ high then some (n, cs.drop count) else none
  else none

/-- What follows a character, if the text begins with it. -/
def expect? (c : Char) (cs : List Char) : Option (List Char) :=
  match cs with
  | d :: rest => if d = c then some rest else none
  | [] => none

/-- A number with zeros before it to fill a width. -/
def padded (width n : Nat) : String :=
  let digits := toString n
  String.ofList (List.replicate (width - digits.length) '0') ++ digits

/-- A date, in canonical form, and what follows it. -/
def scanDate? (cs : List Char) : Option (String × List Char) := do
  let (year, rest) ← scanPart? 4 0 9999 cs
  let rest ← expect? '-' rest
  let (month, rest) ← scanPart? 2 1 12 rest
  let rest ← expect? '-' rest
  let (day, rest) ← scanPart? 2 1 (daysIn year month) rest
  some (padded 4 year ++ "-" ++ padded 2 month ++ "-" ++ padded 2 day, rest)

/-- The digits of a second that are kept. -/
def secondDigits : Nat := 9

/-- The fraction of a second in canonical form. -/
def fractionText (digits : List Char) : String :=
  match ((digits.take secondDigits).reverse.dropWhile (· == '0')).reverse with
  | [] => ""
  | kept => "." ++ String.ofList kept

/-- The fraction of a second, if a point announces one, and what follows. -/
def scanFraction? (cs : List Char) : Option (String × List Char) :=
  match cs with
  | '.' :: rest =>
    match rest.takeWhile Char.isDigit with
    | [] => none
    | digits => some (fractionText digits, rest.dropWhile Char.isDigit)
  | _ => some ("", cs)

/-- A time of day, in canonical form, and what follows it. -/
def scanTime? (cs : List Char) : Option (String × List Char) := do
  let (hour, rest) ← scanPart? 2 0 23 cs
  let rest ← expect? ':' rest
  let (minute, rest) ← scanPart? 2 0 59 rest
  let rest ← expect? ':' rest
  let (second, rest) ← scanPart? 2 0 60 rest
  let (fraction, rest) ← scanFraction? rest
  some (padded 2 hour ++ ":" ++ padded 2 minute ++ ":" ++ padded 2 second ++ fraction, rest)

/-- An offset in hours and minutes, its sign having been passed. -/
def scanShift? (negative : Bool) (cs : List Char) : Option (String × List Char) := do
  let (hour, rest) ← scanPart? 2 0 23 cs
  let rest ← expect? ':' rest
  let (minute, rest) ← scanPart? 2 0 59 rest
  let sign := if negative ∧ (hour ≠ 0 ∨ minute ≠ 0) then "-" else "+"
  some (sign ++ padded 2 hour ++ ":" ++ padded 2 minute, rest)

/-- The offset of a moment, in canonical form, if there is one, and what
    follows. -/
def scanOffset? (cs : List Char) : Option (String × List Char) :=
  match cs with
  | 'Z' :: rest | 'z' :: rest => some ("Z", rest)
  | '+' :: rest => scanShift? false rest
  | '-' :: rest => scanShift? true rest
  | _ => some ("", cs)

/-- Whether a text begins with so many digits and then a character. -/
def beginsWith (count : Nat) (c : Char) (cs : List Char) : Bool :=
  (cs.take count).all Char.isDigit && (cs.drop count).head? == some c
    && (cs.take count).length == count

/-- Whether a text begins like a date. -/
def isDate (cs : List Char) : Bool := beginsWith 4 '-' cs

/-- Whether a text begins like a time of day. -/
def isTime (cs : List Char) : Bool := beginsWith 2 ':' cs

/-- The text behind the letter or space between a date and a time, if a time
    follows it. -/
def timeBehind? (cs : List Char) : Option (List Char) :=
  match cs with
  | c :: rest => if (c = 'T' ∨ c = 't' ∨ c = ' ') ∧ isTime rest then some rest else none
  | [] => none

end Calendar

/-- Whether a text begins like a date or a time. -/
def isMoment (cs : List Char) : Bool :=
  Calendar.isDate cs || Calendar.isTime cs

/-- The moment at the start of a text, in canonical form, and what follows
    it. -/
def scanMoment? (cs : List Char) : Option (String × List Char) :=
  if Calendar.isDate cs then do
    let (date, rest) ← Calendar.scanDate? cs
    match Calendar.timeBehind? rest with
    | none => some (date, rest)
    | some rest => do
      let (time, rest) ← Calendar.scanTime? rest
      let (offset, rest) ← Calendar.scanOffset? rest
      some (date ++ "T" ++ time ++ offset, rest)
  else Calendar.scanTime? cs

end Toml

end StrataShell
