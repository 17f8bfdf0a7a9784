import StrataShell.Datum.Tree
import StrataShell.Proofs.Datum.Readable
import StrataShell.Proofs.Dir
import StrataShell.Proofs.NameMap

/-!
# The Ways to Tell a Tree

The data of a tree leave some freedom at each directory. It is a record whose two
parts may stand in either order and among other fields, or a list of the two
parts; and a part may be left out where it is empty. `Tells` is that relation
between trees and data. A tree is then read from whatever tells it.

For the reader, a record and a list come down to the same. What counts are the
values given for each part, `filesOf` and `dirsOf`: none, or one. `ofDatum?_eq`
says so, and the two forms are not told apart after it. Files and directories are
maps both, with another reader for the values, so `readMap` treats them at once.

Of the values in a directory only the two parts are looked into. `reach` counts the
records and lists on the way, and the reader finds the tree exactly if it has room
for so many.

The other way round, a directory is read only if everything in it is that stands
where a file or a directory is expected.

## Main definitions

* `FileContent.Tells`: The values that tell a permanent content.
* `Tells`: The values that tell a tree.
* `reach`: How far the reader of a tree goes into a value.
* `InTree`: Where directories are expected in a value.

## Theorems

* `ofDatum?_eq`: A directory is read from the values given for its parts.
* `ofDatum?_of_tells`: A tree is read from what tells it if there is room.
* `reach_le_nesting`: The reader goes no further than a value is nested.
* `read_of_inTree`: What stands where a directory is expected is read as one.
-/

namespace StrataShell

namespace FileContent

/-- The values that tell a permanent content: a text, or a record with one path
    among any other fields. -/
inductive Tells : FileContent → Datum → Prop
  | inlineText (text : String) : Tells (.inlineText text) (.text text)
  | deferred (path : String) (fields : List (Option String × Datum))
      (plain : Datum.FieldsPlain fields) (hpath : valuesOf pathField fields = [.text path]) :
      Tells (.deferred path) (.record fields)

end FileContent

namespace Dir

open FileContent (valuesOf)

variable {F α : Type}

/-! ### Forms of a directory -/

/-- A value that has the form of a directory: a record in which every field has a
    name, or a list of two values at most. -/
def IsNode : Datum → Prop
  | .record fields => ∀ field ∈ fields, field.1.isSome = true
  | .list items => items.length ≤ 2
  | .null | .flag _ | .number _ | .text _ | .unreadable => False

instance : (d : Datum) → Decidable (IsNode d)
  | .record fields => inferInstanceAs (Decidable (∀ field ∈ fields, _))
  | .list items => inferInstanceAs (Decidable (items.length ≤ 2))
  | .null | .flag _ | .number _ | .text _ | .unreadable => inferInstanceAs (Decidable False)

/-- The values given for the files of a directory. -/
def filesOf : Datum → List Datum
  | .record fields => valuesOf filesField fields
  | .list items => items.take 1
  | .null | .flag _ | .number _ | .text _ | .unreadable => []

/-- The values given for the directories of a directory. -/
def dirsOf : Datum → List Datum
  | .record fields => valuesOf dirsField fields
  | .list items => items.drop 1
  | .null | .flag _ | .number _ | .text _ | .unreadable => []

/-- Fields that tell a map, entry by entry. -/
inductive TellsEntries (tells : α → Datum → Prop) :
    NameMap α → List (Option String × Datum) → Prop
  | nil : TellsEntries tells [] []
  | cons {name : String} {value : α} {told : Datum} {m : NameMap α}
      {fields : List (Option String × Datum)} (head : tells value told)
      (tail : TellsEntries tells m fields) :
      TellsEntries tells ((name, value) :: m) ((some name, told) :: fields)

/-- Values given for a map: one record, or none if the map is empty. -/
inductive TellsMap (tells : α → Datum → Prop) : NameMap α → List Datum → Prop
  | omitted : TellsMap tells [] []
  | given {m : NameMap α} {fields : List (Option String × Datum)}
      (entries : TellsEntries tells m fields) : TellsMap tells m [.record fields]

/-- The values that tell a tree, if `tells` says which ones tell a content. -/
inductive Tells (tells : F → Datum → Prop) : Dir F → Datum → Prop
  | intro (tree : Dir F) (d : Datum) (form : IsNode d)
      (files : TellsMap tells tree.files (filesOf d))
      (dirs : TellsMap (Tells tells) tree.dirs (dirsOf d)) : Tells tells tree d

/-! ### Maps -/

/-- The entries that fields tell, with a reader for the values. -/
def readEntries (read : Datum → Option α) :
    List (Option String × Datum) → Option (List (String × α))
  | [] => some []
  | (name, told) :: rest => do
    let name ← name
    let value ← read told
    let entries ← readEntries read rest
    some ((name, value) :: entries)

/-- The map that a record tells, with a reader for the values. -/
def readMap (read : Datum.Room → Datum → Option α) (room : Datum.Room) : Datum → Option (NameMap α)
  | .record fields => do
    let inner ← room.inside?
    let entries ← readEntries (read inner) fields
    some (NameMap.ofList entries)
  | .null | .flag _ | .number _ | .text _ | .unreadable | .list _ => none

/-- The map read from the values given for it. None need be given, and no more than
    one may be. -/
def given? (read : Datum → Option α) : List Datum → Option (Option α)
  | [] => some none
  | [told] => (read told).map some
  | _ :: _ :: _ => none

/-- The largest size of a value. -/
def largest (size : Datum → Nat) : List Datum → Nat
  | [] => 0
  | d :: rest => max (size d) (largest size rest)

/-- The size of a value that tells a map, by that of its entries. -/
def mapSize (size : Datum → Nat) : Datum → Nat
  | .record fields => largest size (fields.map Prod.snd) + 1
  | .null | .flag _ | .number _ | .text _ | .unreadable | .list _ => 0

section Maps

variable {tells : α → Datum → Prop} {read : Datum.Room → Datum → Option α} {size : Datum → Nat}
  {m : NameMap α}

/-- Values that tell something are read, as far as there is room. -/
def ReadsBack (tells : α → Datum → Prop) (read : Datum.Room → Datum → Option α)
    (size : Datum → Nat) (value : α) : Prop :=
  ∀ told, tells value told → ∀ room : Datum.Room,
    read room told = if room.fits (size told) then some value else none

theorem readEntries_of_tells {fields : List (Option String × Datum)}
    (h : TellsEntries tells m fields)
    (hread : ∀ entry ∈ m, ReadsBack tells read size entry.2) (room : Datum.Room) :
    readEntries (read room) fields
      = if room.fits (largest size (fields.map Prod.snd)) then some m else none := by
  induction h with
  | nil => simp [readEntries, largest, Datum.Room.fits_zero]
  | @cons name value told m fields head _ ih =>
    have hvalue := hread (name, value) List.mem_cons_self told head room
    have hrest := ih (fun entry hmem => hread entry (List.mem_cons_of_mem _ hmem))
    simp only [readEntries, bind, Option.bind, hvalue, hrest, List.map_cons, largest,
      Datum.Room.fits_max]
    cases room.fits (size told) with
    | false => rfl
    | true => cases room.fits (largest size (fields.map Prod.snd)) <;> rfl

/-- A map is read from the values given for it, if there is room. -/
theorem given?_of_tells {values : List Datum} (h : TellsMap tells m values)
    (hdistinct : NameMap.Distinct m)
    (hread : ∀ entry ∈ m, ReadsBack tells read size entry.2) :
    ∃ told, told.getD [] = m ∧ ∀ room, given? (readMap read room) values
      = if room.fits (largest (mapSize size) values) then some told else none := by
  cases h with
  | omitted => exact ⟨none, rfl, fun room => (if_pos room.fits_zero).symm⟩
  | @given m fields hentries =>
    refine ⟨some m, rfl, fun room => ?_⟩
    have hone : readMap read room (.record fields)
        = if room.fits (mapSize size (.record fields)) then some m else none := by
      refine Datum.Room.inside?_bind room _ m _ (fun inner => ?_)
      simp only [bind, readEntries_of_tells hentries hread]
      split
      · rw [Option.bind_some, NameMap.ofList_of_distinct hdistinct]
      · rfl
    rw [given?, hone, largest, largest, Nat.max_zero]
    split <;> rfl

end Maps

/-! ### The parts of a directory -/

section Parts

variable {reading : Reading F} {room : Datum.Room}

theorem fileEntries?_eq (fields : List (Option String × Datum)) :
    fileEntries? reading room fields = readEntries (reading.file room) fields := by
  induction fields with
  | nil => rfl
  | cons field rest ih => simp only [fileEntries?, readEntries, ih]

theorem dirEntries?_eq (fields : List (Option String × Datum)) :
    dirEntries? reading room fields = readEntries (ofDatum? reading room) fields := by
  induction fields with
  | nil => rfl
  | cons field rest ih => simp only [dirEntries?, readEntries, ih]

theorem files?_eq : files? reading room = readMap reading.file room := by
  funext d
  cases d with
  | record fields =>
    simp only [files?, readMap, fileEntries?_eq]
  | _ => rfl

theorem dirs?_eq : dirs? reading room = readMap (ofDatum? reading) room := by
  funext d
  cases d with
  | record fields =>
    simp only [dirs?, readMap, dirEntries?_eq]
  | _ => rfl

theorem valuesOf_cons (wanted name : String) (told : Datum)
    (rest : List (Option String × Datum)) : valuesOf wanted ((some name, told) :: rest)
      = if name = wanted then told :: valuesOf wanted rest else valuesOf wanted rest := by
  by_cases h : name = wanted
  · simp [valuesOf, h]
  · simp [valuesOf, h]

-- What is given for a part once more than before.
theorem given?_cons (read : Datum → Option α) (told : Datum) (values : List Datum) :
    given? read (told :: values) = (given? read values).bind (fun before =>
      if before.isSome then none else (read told).map some) := by
  cases values with
  | nil => rfl
  | cons other rest =>
    cases rest with
    | nil => cases hother : read other <;> simp [given?, hother]
    | cons _ _ => rfl

/-- Each part of a record is read from the values given for it. -/
theorem partsOfFields?_eq {fields : List (Option String × Datum)}
    (h : ∀ field ∈ fields, field.1.isSome = true) :
    partsOfFields? reading room fields
      = (given? (files? reading room) (valuesOf filesField fields)).bind (fun files =>
          (given? (dirs? reading room) (valuesOf dirsField fields)).bind (fun dirs =>
            some (files, dirs))) := by
  induction fields with
  | nil => rfl
  | cons field rest ih =>
    rcases field with ⟨key, told⟩
    rcases Option.isSome_iff_exists.mp (h _ List.mem_cons_self) with ⟨name, rfl⟩
    have hrest := ih (fun field hmem => h field (List.mem_cons_of_mem _ hmem))
    have hne : filesField ≠ dirsField := by decide
    simp only [partsOfFields?, bind, Option.bind_some, hrest, valuesOf_cons]
    by_cases hfiles : name = filesField
    · simp only [hfiles, if_true, if_neg hne, given?_cons]
      cases given? (files? reading room) (valuesOf filesField rest) with
      | none => rfl
      | some before =>
        cases given? (dirs? reading room) (valuesOf dirsField rest) <;> cases before <;>
          cases files? reading room told <;> rfl
    · by_cases hdirs : name = dirsField
      · simp only [hdirs, if_true, if_neg (Ne.symm hne), given?_cons]
        cases given? (files? reading room) (valuesOf filesField rest) with
        | none => rfl
        | some files =>
          cases given? (dirs? reading room) (valuesOf dirsField rest) with
          | none => rfl
          | some before => cases before <;> cases dirs? reading room told <;> rfl
      · simp only [if_neg hfiles, if_neg hdirs, Option.bind_fun_some]

-- Each part of a list is read from the value in its place.
theorem partsOfItems?_eq {items : List Datum} (h : items.length ≤ 2) :
    partsOfItems? reading room items
      = (given? (files? reading room) (items.take 1)).bind (fun files =>
          (given? (dirs? reading room) (items.drop 1)).bind (fun dirs =>
            some (files, dirs))) := by
  match items, h with
  | [], _ => rfl
  | [first], _ =>
    simp only [partsOfItems?, bind]
    cases hfiles : files? reading room first <;> simp [given?, hfiles]
  | [first, second], _ =>
    simp only [partsOfItems?, bind]
    cases hfiles : files? reading room first <;> cases hdirs : dirs? reading room second <;>
      simp [given?, hfiles, hdirs]

/-- A directory is read from the values given for its parts, whatever its form. -/
theorem ofDatum?_eq {d : Datum} (h : IsNode d) :
    ofDatum? reading room d = room.inside?.bind (fun inner =>
      (given? (readMap reading.file inner) (filesOf d)).bind (fun files =>
        (given? (readMap (ofDatum? reading) inner) (dirsOf d)).bind (fun dirs =>
          some (ofParts (files, dirs))))) := by
  cases d with
  | record fields =>
    simp only [ofDatum?, bind, partsOfFields?_eq h, files?_eq, dirs?_eq, filesOf, dirsOf,
      Option.bind_assoc, Option.bind_some]
  | list items =>
    simp only [ofDatum?, bind, partsOfItems?_eq h, files?_eq, dirs?_eq, filesOf, dirsOf,
      Option.bind_assoc, Option.bind_some]
  | _ => exact h.elim

end Parts

/-! ### How far the reader goes -/

mutual

/-- How many lists and records the reader of a tree goes into. -/
def reach : Datum → Nat
  | .record fields => fieldsReach fields + 1
  | .list items => itemsReach items + 1
  | .null | .flag _ | .number _ | .text _ | .unreadable => 0

/-- The same for the fields of a directory. Only the two parts count. -/
def fieldsReach : List (Option String × Datum) → Nat
  | [] => 0
  | (name, told) :: rest =>
    max (if name = some filesField then mapSize Datum.nesting told
      else if name = some dirsField then dirsReach told else 0) (fieldsReach rest)

/-- The same for a directory written as a list. -/
def itemsReach : List Datum → Nat
  | [] => 0
  | [files] => mapSize Datum.nesting files
  | files :: dirs :: _ => max (mapSize Datum.nesting files) (dirsReach dirs)

/-- The same for the directories of a directory. -/
def dirsReach : Datum → Nat
  | .record fields => entriesReach fields + 1
  | .null | .flag _ | .number _ | .text _ | .unreadable | .list _ => 0

/-- The same for the fields with the directories of a directory. -/
def entriesReach : List (Option String × Datum) → Nat
  | [] => 0
  | (_, told) :: rest => max (reach told) (entriesReach rest)

end

theorem entriesReach_eq (fields : List (Option String × Datum)) :
    entriesReach fields = largest reach (fields.map Prod.snd) := by
  induction fields with
  | nil => rfl
  | cons field rest ih => rw [entriesReach, List.map_cons, largest, ih]

theorem dirsReach_eq (d : Datum) : dirsReach d = mapSize reach d := by
  cases d with
  | record fields => rw [dirsReach, mapSize, entriesReach_eq]
  | _ => rfl

theorem fieldsReach_eq {fields : List (Option String × Datum)}
    (h : ∀ field ∈ fields, field.1.isSome = true) :
    fieldsReach fields = max (largest (mapSize Datum.nesting) (valuesOf filesField fields))
      (largest (mapSize reach) (valuesOf dirsField fields)) := by
  induction fields with
  | nil => rfl
  | cons field rest ih =>
    rcases field with ⟨key, told⟩
    rcases Option.isSome_iff_exists.mp (h _ List.mem_cons_self) with ⟨name, rfl⟩
    have hrest := ih (fun field hmem => h field (List.mem_cons_of_mem _ hmem))
    have hne : filesField ≠ dirsField := by decide
    simp only [fieldsReach, hrest, valuesOf_cons, dirsReach_eq, Option.some.injEq]
    by_cases hfiles : name = filesField
    · simp only [hfiles, if_true, if_neg hne, largest, Nat.max_assoc]
    · by_cases hdirs : name = dirsField
      · simp only [hdirs, if_true, if_neg (Ne.symm hne), largest]
        omega
      · simp only [if_neg hfiles, if_neg hdirs, Nat.zero_max]

/-- The reader goes into a directory and, from there, into the values given for its
    parts. -/
theorem reach_eq {d : Datum} (h : IsNode d) :
    reach d = max (largest (mapSize Datum.nesting) (filesOf d))
      (largest (mapSize reach) (dirsOf d)) + 1 := by
  cases d with
  | record fields => rw [reach, fieldsReach_eq h, filesOf, dirsOf]
  | list items =>
    match items, h with
    | [], _ => rfl
    | [first], _ => simp [reach, itemsReach, filesOf, dirsOf, largest]
    | [first, second], _ => simp [reach, itemsReach, filesOf, dirsOf, largest, dirsReach_eq]
  | _ => exact h.elim

/-! ### The whole tree -/

variable {tells : F → Datum → Prop} {reading : Reading F}

/-- A tree without repetitions is read from whatever tells it if there is room for
    what the reader goes into, and is not read at all if there is not. -/
theorem ofDatum?_of_tells (h : ∀ content, ReadsBack tells reading.file Datum.nesting content)
    {tree : Dir F} (hd : tree.Distinct) :
    ReadsBack (Tells tells) (ofDatum? reading) reach tree := by
  induction hd with
  | intro tree hfiles hdirs _ ih =>
    intro told htold room
    cases htold with
    | intro _ _ form files dirs =>
      rcases given?_of_tells files hfiles (fun entry _ => h entry.2) with ⟨fs, hfs, hreadFiles⟩
      rcases given?_of_tells dirs hdirs
        (fun entry hmem => ih entry.1 entry.2 (NameMap.get?_of_mem hdirs hmem))
        with ⟨ds, hds, hreadDirs⟩
      rw [ofDatum?_eq form, reach_eq form]
      refine Datum.Room.inside?_bind room _ tree _ (fun inner => ?_)
      have hparts : ofParts (fs, ds) = tree := eq_of_files_of_dirs hfs hds
      rw [hreadFiles, hreadDirs, Datum.Room.fits_max]
      cases inner.fits (largest (mapSize Datum.nesting) (filesOf told)) <;>
        cases inner.fits (largest (mapSize reach) (dirsOf told)) <;> simp [hparts]

theorem fieldsNesting_eq (fields : List (Option String × Datum)) :
    Datum.fieldsNesting fields = largest Datum.nesting (fields.map Prod.snd) := by
  induction fields with
  | nil => rfl
  | cons field rest ih => rw [Datum.fieldsNesting, List.map_cons, largest, ih]

-- The contents of files are looked into as far as they go.
theorem mapSize_nesting_le (d : Datum) : mapSize Datum.nesting d ≤ d.nesting := by
  cases d with
  | record fields => exact Nat.le_of_eq (by rw [mapSize, Datum.nesting, fieldsNesting_eq])
  | _ => exact Nat.zero_le _

mutual

/-- The reader goes no further than a value is nested. -/
theorem reach_le_nesting : ∀ d : Datum, reach d ≤ d.nesting
  | .record fields => Nat.succ_le_succ (fieldsReach_le fields)
  | .list items => Nat.succ_le_succ (itemsReach_le items)
  | .null | .flag _ | .number _ | .text _ | .unreadable => Nat.le_refl 0

-- The same for the fields of a directory.
theorem fieldsReach_le : ∀ fields : List (Option String × Datum),
    fieldsReach fields ≤ Datum.fieldsNesting fields
  | [] => Nat.le_refl 0
  | (name, told) :: rest => by
    have hrest := fieldsReach_le rest
    have hfiles := mapSize_nesting_le told
    have hdirs := dirsReach_le told
    simp only [fieldsReach, Datum.fieldsNesting]
    split
    · omega
    · split <;> omega

-- The same for a directory written as a list.
theorem itemsReach_le : ∀ items : List Datum, itemsReach items ≤ Datum.itemsNesting items
  | [] => Nat.le_refl 0
  | [files] => by
    have hfiles := mapSize_nesting_le files
    simp only [itemsReach, Datum.itemsNesting]
    omega
  | files :: dirs :: rest => by
    have hfiles := mapSize_nesting_le files
    have hdirs := dirsReach_le dirs
    simp only [itemsReach, Datum.itemsNesting]
    omega

-- The same for the directories of a directory.
theorem dirsReach_le : ∀ d : Datum, dirsReach d ≤ d.nesting
  | .record fields => Nat.succ_le_succ (entriesReach_le fields)
  | .null | .flag _ | .number _ | .text _ | .unreadable | .list _ => Nat.zero_le _

-- The same for the fields with the directories of a directory.
theorem entriesReach_le : ∀ fields : List (Option String × Datum),
    entriesReach fields ≤ Datum.fieldsNesting fields
  | [] => Nat.le_refl 0
  | (_, told) :: rest => by
    have htold := reach_le_nesting told
    have hrest := entriesReach_le rest
    simp only [entriesReach, Datum.fieldsNesting]
    omega

end

/-! ### What a directory is read from -/

/-- The values under the names of a map. -/
def entryValues : Datum → List Datum
  | .record fields => fields.map Prod.snd
  | .null | .flag _ | .number _ | .text _ | .unreadable | .list _ => []

/-- The values that stand where a file of a directory is expected. -/
def fileValues (d : Datum) : List Datum :=
  (filesOf d).flatMap entryValues

/-- The values that stand where a directory of a directory is expected. -/
def dirValues (d : Datum) : List Datum :=
  (dirsOf d).flatMap entryValues

/-- A value stands where a directory is expected: it is the root of a tree, or it
    stands so in such a value. -/
inductive InTree (root : Datum) : Datum → Prop
  | root : InTree root root
  | child {node d : Datum} (hnode : InTree root node) (hd : d ∈ dirValues node) : InTree root d

theorem named_of_partsOfFields? {room : Datum.Room} {fields : List (Option String × Datum)}
    {parts : Parts F} (h : partsOfFields? reading room fields = some parts) :
    ∀ field ∈ fields, field.1.isSome = true := by
  induction fields generalizing parts with
  | nil => exact List.forall_mem_nil _
  | cons field rest ih =>
    rcases field with ⟨key, told⟩
    simp only [partsOfFields?, bind, Option.bind_eq_some_iff] at h
    rcases h with ⟨name, hname, before, hbefore, _⟩
    exact List.forall_mem_cons.mpr ⟨Option.isSome_of_eq_some hname, ih hbefore⟩

/-- What is read as a directory has the form of one. -/
theorem isNode_of_ofDatum? (hextra : reading.extraItems = false) {room : Datum.Room} {d : Datum}
    {tree : Dir F} (h : ofDatum? reading room d = some tree) : IsNode d := by
  cases d with
  | record fields =>
    simp only [ofDatum?, bind, Option.bind_eq_some_iff] at h
    rcases h with ⟨inner, _, parts, hparts, _⟩
    exact named_of_partsOfFields? hparts
  | list items =>
    simp only [ofDatum?, bind, Option.bind_eq_some_iff] at h
    rcases h with ⟨inner, _, parts, hparts, _⟩
    match items, hparts with
    | [], _ => exact Nat.zero_le 2
    | [first], _ => exact Nat.le_succ 1
    | [first, second], _ => exact Nat.le_refl 2
    | first :: second :: third :: rest, hparts => simp [partsOfItems?, hextra] at hparts
  | _ => simp [ofDatum?] at h

-- A map is read only if every value in it is.
theorem exists_read_of_given? {read : Datum.Room → Datum → Option α} {room : Datum.Room}
    {values : List Datum} {told : Option (NameMap α)}
    (h : given? (readMap read room) values = some told) :
    ∀ d ∈ values.flatMap entryValues, ∃ inner value, read inner d = some value := by
  have hentries : ∀ (inner : Datum.Room) (fields : List (Option String × Datum)) entries,
      readEntries (read inner) fields = some entries →
        ∀ d ∈ fields.map Prod.snd, ∃ value, read inner d = some value := by
    intro inner fields
    induction fields with
    | nil => exact fun _ _ => List.forall_mem_nil _
    | cons field rest ih =>
      intro entries hread
      simp only [readEntries, bind, Option.bind_eq_some_iff] at hread
      rcases hread with ⟨_, _, value, hvalue, later, hlater, _⟩
      exact List.forall_mem_cons.mpr ⟨⟨value, hvalue⟩, ih later hlater⟩
  match values, h with
  | [], _ => exact List.forall_mem_nil _
  | [one], h =>
    intro d hmem
    rw [List.flatMap_singleton] at hmem
    cases one with
    | record fields =>
      simp only [given?, readMap, bind, Option.map_eq_some_iff, Option.bind_eq_some_iff] at h
      rcases h with ⟨_, ⟨inner, _, entries, hread, _⟩, _⟩
      exact ⟨inner, hentries inner fields entries hread d hmem⟩
    | _ => exact absurd hmem List.not_mem_nil

/-- A directory is read only if every file and every directory in it is. -/
theorem exists_read_of_ofDatum? (hextra : reading.extraItems = false) {room : Datum.Room}
    {d : Datum} {tree : Dir F} (h : ofDatum? reading room d = some tree) :
    (∀ value ∈ fileValues d, ∃ inner content, reading.file inner value = some content)
      ∧ ∀ child ∈ dirValues d, ∃ inner sub, ofDatum? reading inner child = some sub := by
  rw [ofDatum?_eq (isNode_of_ofDatum? hextra h)] at h
  simp only [Option.bind_eq_some_iff] at h
  rcases h with ⟨inner, _, files, hfiles, dirs, hdirs, _⟩
  exact ⟨exists_read_of_given? hfiles, exists_read_of_given? hdirs⟩

/-- In a value that is read as a tree, whatever stands where a directory is expected
    has the form of one, and its files are read. -/
theorem read_of_inTree (hextra : reading.extraItems = false) {room : Datum.Room}
    {root node : Datum} {tree : Dir F} (h : ofDatum? reading room root = some tree)
    (hnode : InTree root node) :
    IsNode node ∧ ∀ value ∈ fileValues node, ∃ inner content,
      reading.file inner value = some content := by
  have hread : ∃ inner sub, ofDatum? reading inner node = some sub := by
    induction hnode with
    | root => exact ⟨room, tree, h⟩
    | child _ hd ih =>
      rcases ih with ⟨inner, sub, hsub⟩
      exact (exists_read_of_ofDatum? hextra hsub).2 _ hd
  rcases hread with ⟨inner, sub, hsub⟩
  exact ⟨isNode_of_ofDatum? hextra hsub, (exists_read_of_ofDatum? hextra hsub).1⟩

end Dir

end StrataShell
