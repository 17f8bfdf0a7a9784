/-!
# Values of Data Documents

What a document in a data format says, before it is known what it is about:
scalars, lists and records. Two formats are read into this one type, so that
the meaning of a record is settled once for both.

A record is a list of fields in the order of the document, repetitions
included; whether a repetition is a fault depends on what the record stands
for. A reader may also come upon a scalar that is well formed but denotes
nothing, such as text with half of a surrogate pair. Such a scalar is kept as
`unreadable`, because it is a fault only where its value is asked for; for the
same reason the name of a field may be absent.

## Main definitions

* `Datum`: A value of a data document.
* `Datum.isReadable`: Whether every scalar in a value denotes something, and
  the nesting stays within a bound.
-/

namespace StrataShell

/-- A value of a data document. -/
inductive Datum
  | null
  | flag (value : Bool)
  /-- A number, as it was written. -/
  | number (literal : String)
  | text (value : String)
  /-- A scalar that is well formed but denotes nothing. -/
  | unreadable
  | list (items : List Datum)
  /-- A record; a field whose name denotes nothing has none. -/
  | record (fields : List (Option String × Datum))

namespace Datum

/-- How many lists and records may be nested: some number, or any. -/
abbrev Room := Option Nat

/-- The room left inside a list or record, if there is room for it. -/
def Room.inside? : Room → Option Room
  | none => some none
  | some 0 => none
  | some (n + 1) => some (some n)

mutual

/-- Whether every scalar in a value denotes something, names included, and its
    lists and records are nested no deeper than there is room. -/
def isReadable (room : Room) : Datum → Bool
  | .unreadable => false
  | .list items =>
    match Room.inside? room with
    | none => false
    | some inner => areReadable inner items
  | .record fields =>
    match Room.inside? room with
    | none => false
    | some inner => fieldsReadable inner fields
  | _ => true

/-- The same for each value of a list. -/
def areReadable (room : Room) : List Datum → Bool
  | [] => true
  | item :: rest => isReadable room item && areReadable room rest

/-- The same for each field of a record. -/
def fieldsReadable (room : Room) : List (Option String × Datum) → Bool
  | [] => true
  | (name, value) :: rest => name.isSome && isReadable room value && fieldsReadable room rest

end

end Datum

end StrataShell
