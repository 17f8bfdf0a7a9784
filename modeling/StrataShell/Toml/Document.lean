import StrataShell.Toml.Value

/-!
# TOML Documents

A document is a sequence of lines: a line says nothing, gives a key a value, or
is the header of a table. The keys before the first header belong to the
document itself, and those behind a header to the table that it names, so the
lines fall into sections.

Headers in single brackets name a table, those in double brackets one more row
of an array of tables. A section is added to the document as a whole, and the
order of the sections is what decides which of two clashing statements is at
fault; since any fault spoils the document, only its presence matters.

## Main definitions

* `Line`: What one line says.
* `Section`: A header and the lines up to the next.
* `parse?`: The value of a document.
-/

namespace StrataShell

namespace Toml

/-- A header: the path of the table that it names. -/
structure Header where
  /-- Whether it names one more row of an array of tables. -/
  isRow : Bool
  /-- The path to the table that holds it. -/
  path : List String
  /-- Its key in that table. -/
  key : String

/-- What one line says. -/
inductive Line
  | nothing
  | assignment (a : Assignment)
  | header (h : Header)

/-- A header and the assignments up to the next. -/
structure Section where
  header : Header
  body : List Assignment

/-- A header whose opening brackets have been passed, and what follows its
    closing brackets. -/
def scanHeader? (isRow : Bool) (cs : List Char) : Option (Line × List Char) := do
  let ((path, key), rest) ← scanPath? cs
  let header : Line := .header { isRow := isRow, path := path, key := key }
  match isRow, rest with
  | true, ']' :: ']' :: rest => some (header, rest)
  | false, ']' :: rest => some (header, rest)
  | _, _ => none

/-- An assignment, and what follows its value. -/
def scanAssignment? (cs : List Char) : Option (Line × List Char) := do
  let ((path, key), rest) ← scanPath? cs
  match rest with
  | '=' :: rest => do
    let cs := skipBlanks rest
    let (value, rest) ← value? (nestingLimit - 1) (2 * cs.length + 2) cs
    some (.assignment { path := path, key := key, value := value }, rest)
  | _ => none

/-- What the line at the start of a text says, and the rest of the line. -/
def scanLineBody? (cs : List Char) : Option (Line × List Char) :=
  match cs with
  | [] | '#' :: _ | '\n' :: _ | '\r' :: _ => some (.nothing, cs)
  | '[' :: '[' :: rest => scanHeader? true rest
  | '[' :: rest => scanHeader? false rest
  | _ => scanAssignment? cs

/-- The lines of a text. Each of them but the last ends with a line end, so the
    length of the text bounds their number. -/
def lines? : Nat → List Char → Option (List Line)
  | _, [] => some []
  | 0, _ => none
  | fuel + 1, cs => do
    let (line, rest) ← scanLineBody? (skipBlanks cs)
    let rest ← lineEnd? rest
    let lines ← lines? fuel rest
    some (line :: lines)

/-- The assignments before the first header, and the sections. -/
def sections : List Line → List Assignment × List Section
  | [] => ([], [])
  | line :: rest =>
    let (body, later) := sections rest
    match line with
    | .nothing => (body, later)
    | .assignment a => (a :: body, later)
    | .header h => ([], { header := h, body := body } :: later)

/-- Add a section to a document. -/
def addSection? (s : Section) (entries : Entries) : Option Entries :=
  let change :=
    if s.header.isRow then addRow? s.header.key s.body else addTable? s.header.key s.body
  enter? .implied change s.header.path .header entries

/-- Add sections one after another. -/
def addSections? : List Section → Entries → Option Entries
  | [], entries => some entries
  | s :: rest, entries => do
    let entries ← addSection? s entries
    addSections? rest entries

/-- The text behind a byte order mark, if there is one. -/
def skipByteOrderMark (cs : List Char) : List Char :=
  match cs with
  | c :: rest => if c = '\ufeff' then rest else cs
  | [] => []

/-- The value of a document: a record of its keys and tables. -/
def parse? (document : String) : Option Datum := do
  let cs := skipByteOrderMark document.toList
  let lines ← lines? (cs.length + 1) cs
  let (body, later) := sections lines
  let entries ← assignAll? body .header []
  let entries ← addSections? later entries
  some (.record (fieldsOf entries))

end Toml

end StrataShell
