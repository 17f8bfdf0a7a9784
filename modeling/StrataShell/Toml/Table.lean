import StrataShell.Datum
import StrataShell.NameMap

/-!
# Tables Under Construction

A document does not state its tables one by one. It states paths, and a table
may be built up from several places: from the header that names it, from the
headers of tables inside it, or from keys with dots in another table. What may
be added later depends on where a table came from, so the tables of a document
under construction remember their origin, and the finished document does not.

The rules are these. A table may be given a header once, and only if until then
it was merely implied by headers of tables inside it; it then moves to the
place of its header. A key with dots may build only tables that no header has
named, and adds values only to tables that such keys have made. A value stays
as it is: nothing is ever added to an inline table or an array.

## Main definitions

* `Origin`: Where a table came from.
* `Node`: An entry of a table under construction.
* `enter?`: Change the table at the end of a path.
* `assign?`: Give a key with dots a value.
* `addTable?`, `addRow?`: Add what follows a header.
* `Node.toDatum`: The finished value.
-/

namespace StrataShell

namespace Toml

/-- Where a table came from. -/
inductive Origin
  /-- It was named: by a header, as a row of an array of tables, or because it
      is the whole document. -/
  | header
  /-- A header of a table inside it implied it. -/
  | implied
  /-- A key with dots made it. -/
  | dotted
  deriving DecidableEq

/-- An entry of a table under construction. -/
inductive Node
  /-- A value, complete as it is. -/
  | value (d : Datum)
  | table (origin : Origin) (entries : List (String × Node))
  /-- An array of tables, one for each of its headers. -/
  | rows (tables : List (List (String × Node)))

/-- The entries of a table under construction. -/
abbrev Entries := NameMap Node

/-- What is done to a table: its origin and its entries give new entries, unless
    the rules forbid it. -/
abbrev Change := Origin → Entries → Option Entries

/-- Change the table at the end of a path that begins in another table. Tables
    that are missing on the way are made, with the origin `made`, and an array
    of tables stands for its last row. A key with dots does not pass through a
    table that has been named. -/
def enter? (made : Origin) (change : Change) : List String → Change
  | [], origin, entries => change origin entries
  | name :: rest, _, entries =>
    match NameMap.get? name entries with
    | none => do
      let inner ← enter? made change rest made []
      some (NameMap.insert name (.table made inner) entries)
    | some (.table origin inner) =>
      if made = .dotted ∧ origin = .header then none
      else do
        let inner ← enter? made change rest origin inner
        some (NameMap.insert name (.table origin inner) entries)
    | some (.rows tables) =>
      match tables.getLast? with
      | none => none
      | some row => do
        let row ← enter? made change rest .header row
        some (NameMap.insert name (.rows (tables.dropLast ++ [row])) entries)
    | some (.value _) => none

/-- A value for a key with dots: the path to a table, the key in it, and the
    value. -/
structure Assignment where
  path : List String
  key : String
  value : Datum

/-- Give a key with dots a value. The key must be new. Where there are dots,
    the table must be one that such keys have made, and where there are none it
    must not. -/
def assign? (a : Assignment) : Change :=
  enter? .dotted (fun origin entries =>
    if decide (origin = .dotted) = a.path.isEmpty then none
    else if NameMap.contains a.key entries then none
    else some (NameMap.insert a.key (.value a.value) entries)) a.path

/-- Make assignments one after another in one table. -/
def assignAll? : List Assignment → Change
  | [], _, entries => some entries
  | a :: rest, origin, entries => do
    let entries ← assign? a origin entries
    assignAll? rest origin entries

/-- The entries without those of a name. -/
def without (name : String) (entries : Entries) : Entries :=
  entries.filter (fun entry => entry.1 ≠ name)

/-- Add a table that a header names. If headers of tables inside it have
    implied it, it keeps those and moves to the end. -/
def addTable? (key : String) (body : List Assignment) : Change := fun _ entries =>
  let old? : Option Entries :=
    match NameMap.get? key entries with
    | none => some []
    | some (.table .implied inner) => some inner
    | some _ => none
  do
    let old ← old?
    let table ← assignAll? body .header old
    some (NameMap.insert key (.table .header table) (without key entries))

/-- Add a row to an array of tables, which may be a new one. -/
def addRow? (key : String) (body : List Assignment) : Change := fun _ entries =>
  let rows? : Option (List Entries) :=
    match NameMap.get? key entries with
    | none => some []
    | some (.rows rows) => some rows
    | some _ => none
  do
    let rows ← rows?
    let row ← assignAll? body .header []
    some (NameMap.insert key (.rows (rows ++ [row])) entries)

mutual

/-- The finished value of an entry. -/
def Node.toDatum : Node → Datum
  | .value d => d
  | .table _ entries => .record (fieldsOf entries)
  | .rows tables => .list (rowsOf tables)

/-- The finished fields of a table. -/
def fieldsOf : List (String × Node) → List (Option String × Datum)
  | [] => []
  | (name, node) :: rest => (some name, node.toDatum) :: fieldsOf rest

/-- The finished rows of an array of tables. -/
def rowsOf : List (List (String × Node)) → List Datum
  | [] => []
  | row :: rest => .record (fieldsOf row) :: rowsOf rest

end

end Toml

end StrataShell
