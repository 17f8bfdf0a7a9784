import StrataShell.Datum

/-!
# Values That Can Be Read

A reader may give a value up for two reasons that have nothing to do with what
the value is about: a scalar in it denotes nothing, or it is nested deeper than the
reader has room for. `nesting` counts the lists and records that lie in one
another, and `Room.fits` compares the number with the room. A value in which every
scalar denotes something is therefore readable exactly if it fits.

Numbers are left out of `IsPlain`, since nothing that is written here has any.

## Main definitions

* `nesting`: How many lists and records of a value lie in one another.
* `Room.fits`: Whether there is room for so many.
* `IsPlain`: A value without numbers and without faults.

## Theorems

* `Room.inside?_bind`: What is done inside a record, said from outside.
* `isReadable_of_isPlain`: A plain value is readable if it fits, and else not.
-/

namespace StrataShell

namespace Datum

mutual

/-- How many lists and records of a value lie in one another. -/
def nesting : Datum → Nat
  | .list items => itemsNesting items + 1
  | .record fields => fieldsNesting fields + 1
  | .null | .flag _ | .number _ | .text _ | .unreadable => 0

/-- The largest nesting of a value of a list. -/
def itemsNesting : List Datum → Nat
  | [] => 0
  | item :: rest => max (nesting item) (itemsNesting rest)

/-- The largest nesting of a field of a record. -/
def fieldsNesting : List (Option String × Datum) → Nat
  | [] => 0
  | (_, value) :: rest => max (nesting value) (fieldsNesting rest)

end

namespace Room

/-- Whether there is room for so many lists and records in one another. -/
def fits : Room → Nat → Bool
  | none, _ => true
  | some room, levels => levels ≤ room

theorem fits_zero (room : Room) : room.fits 0 = true := by
  cases room <;> simp [fits]

theorem fits_max (room : Room) (a b : Nat) :
    room.fits (max a b) = (room.fits a && room.fits b) := by
  cases room with
  | none => rfl
  | some n => simp only [fits, Nat.max_le, Bool.decide_and]

/-- To find a value inside a record if it fits there is to find it if it fits
    with one level more. -/
theorem inside?_bind {α : Type} (room : Room) (levels : Nat) (value : α) (find : Room → Option α)
    (hfind : ∀ inner, find inner = if fits inner levels then some value else none) :
    room.inside?.bind find = if room.fits (levels + 1) then some value else none := by
  cases room with
  | none => simp [inside?, hfind, fits]
  | some n =>
    cases n with
    | zero => simp [inside?, fits]
    | succ n => simp [inside?, hfind, fits]

end Room

mutual

/-- A value without numbers, in which every scalar denotes something and every
    field has a name. -/
def IsPlain : Datum → Prop
  | .null | .flag _ | .text _ => True
  | .number _ | .unreadable => False
  | .list items => ItemsPlain items
  | .record fields => FieldsPlain fields

/-- The same for each value of a list. -/
def ItemsPlain : List Datum → Prop
  | [] => True
  | item :: rest => IsPlain item ∧ ItemsPlain rest

/-- The same for each field of a record. -/
def FieldsPlain : List (Option String × Datum) → Prop
  | [] => True
  | (name, value) :: rest => name.isSome = true ∧ IsPlain value ∧ FieldsPlain rest

end

namespace Room

-- To ask something of what is inside, if that amounts to asking whether it fits.
theorem inside?_fits (room : Room) (levels : Nat) (check : Room → Bool)
    (hcheck : ∀ inner, check inner = inner.fits levels) :
    (match room.inside? with
      | none => false
      | some inner => check inner) = room.fits (levels + 1) := by
  cases room with
  | none => exact hcheck none
  | some n =>
    cases n with
    | zero => simp [inside?, fits]
    | succ n => simp [inside?, hcheck, fits]

end Room

mutual

/-- A plain value is readable if there is room for its lists and records, and is not
    if there is none. -/
theorem isReadable_of_isPlain : ∀ (d : Datum) (room : Room), d.IsPlain →
    isReadable room d = room.fits d.nesting
  | .null, room, _ | .flag _, room, _ | .text _, room, _ => (room.fits_zero).symm
  | .list items, room, h =>
    Room.inside?_fits room _ _ (fun inner => areReadable_of_itemsPlain items inner h)
  | .record fields, room, h =>
    Room.inside?_fits room _ _ (fun inner => fieldsReadable_of_fieldsPlain fields inner h)

-- The same for the values of a list.
theorem areReadable_of_itemsPlain : ∀ (items : List Datum) (room : Room), ItemsPlain items →
    areReadable room items = room.fits (itemsNesting items)
  | [], room, _ => (room.fits_zero).symm
  | item :: rest, room, h => by
    rw [areReadable, itemsNesting, Room.fits_max, isReadable_of_isPlain item room h.1,
      areReadable_of_itemsPlain rest room h.2]

-- The same for the fields of a record.
theorem fieldsReadable_of_fieldsPlain : ∀ (fields : List (Option String × Datum)) (room : Room),
    FieldsPlain fields → fieldsReadable room fields = room.fits (fieldsNesting fields)
  | [], room, _ => (room.fits_zero).symm
  | (name, value) :: rest, room, h => by
    rw [fieldsReadable, fieldsNesting, Room.fits_max, h.1, Bool.true_and,
      isReadable_of_isPlain value room h.2.1, fieldsReadable_of_fieldsPlain rest room h.2.2]

end

end Datum

end StrataShell
