import StrataShell.Datum
import StrataShell.Json.Number
import StrataShell.Json.Text

/-!
# Reading JSON

A document is one value with blanks around it. The grammar is the strict one:
no comments, no comma before a closing bracket, no value other than the six
kinds, and only four characters count as blank.

The reader decides the form and nothing else. Whether a scalar denotes
something, whether nesting is too deep, and whether a field may be repeated are
questions about the value, because their answers depend on where in it they
are asked.

The functions that read nested values are given fuel. Each step into a value
uses up one unit and each pair of steps at least one character, so twice the
length of the text is enough; the wrapper `parse?` supplies it.

## Main definitions

* `skipBlanks`: The text behind leading blanks.
* `value?`: The value at the start of a text.
* `parse?`: The value of a document.
-/

namespace StrataShell

namespace Json

/-- Whether a character may stand between the parts of a document. -/
def isBlank (c : Char) : Bool :=
  c == ' ' || c == '\n' || c == '\r' || c == '\t'

/-- The text behind leading blanks. -/
def skipBlanks (cs : List Char) : List Char :=
  cs.dropWhile isBlank

/-- The quoted text whose opening mark has been passed. It is absent where the
    code points stand for none. -/
def scanText? (cs : List Char) : Option (Option String × List Char) := do
  let (units, rest) ← scanUnits? cs
  some ((ofUnits? units).map String.ofList, rest)

/-- The number at the start of a text. -/
def scanNumber? (cs : List Char) : Option (Datum × List Char) := do
  let (literal, rest) ← Number.scan? cs
  let written := String.ofList (cs.take (cs.length - rest.length))
  some (if literal.isFinite then .number written else .unreadable, rest)

mutual

/-- The value at the start of a text, and the rest. -/
def value? : Nat → List Char → Option (Datum × List Char)
  | 0, _ => none
  | fuel + 1, cs =>
    match skipBlanks cs with
    | 'n' :: 'u' :: 'l' :: 'l' :: rest => some (.null, rest)
    | 't' :: 'r' :: 'u' :: 'e' :: rest => some (.flag true, rest)
    | 'f' :: 'a' :: 'l' :: 's' :: 'e' :: rest => some (.flag false, rest)
    | '"' :: rest => do
      let (text, rest) ← scanText? rest
      some ((text.map Datum.text).getD .unreadable, rest)
    | '[' :: rest =>
      match skipBlanks rest with
      | ']' :: rest => some (.list [], rest)
      | rest => do
        let (items, rest) ← items? fuel rest
        some (.list items, rest)
    | '{' :: rest =>
      match skipBlanks rest with
      | '}' :: rest => some (.record [], rest)
      | rest => do
        let (fields, rest) ← fields? fuel rest
        some (.record fields, rest)
    | cs => scanNumber? cs

/-- The values of a list up to its closing bracket, and what follows it. -/
def items? : Nat → List Char → Option (List Datum × List Char)
  | 0, _ => none
  | fuel + 1, cs => do
    let (item, rest) ← value? fuel cs
    match skipBlanks rest with
    | ',' :: rest => do
      let (items, rest) ← items? fuel rest
      some (item :: items, rest)
    | ']' :: rest => some ([item], rest)
    | _ => none

/-- The fields of a record up to its closing bracket, and what follows it. -/
def fields? : Nat → List Char → Option (List (Option String × Datum) × List Char)
  | 0, _ => none
  | fuel + 1, cs =>
    match skipBlanks cs with
    | '"' :: rest => do
      let (name, rest) ← scanText? rest
      match skipBlanks rest with
      | ':' :: rest => do
        let (value, rest) ← value? fuel rest
        match skipBlanks rest with
        | ',' :: rest => do
          let (fields, rest) ← fields? fuel rest
          some ((name, value) :: fields, rest)
        | '}' :: rest => some ([(name, value)], rest)
        | _ => none
      | _ => none
    | _ => none

end

/-- The value of a document. -/
def parse? (document : String) : Option Datum :=
  let cs := document.toList
  match value? (2 * cs.length + 2) cs with
  | none => none
  | some (value, rest) => if skipBlanks rest = [] then some value else none

end Json

end StrataShell
