import StrataShell.Proofs.Datum.Presentation

/-!
# A Tree Told as Data Is Read Back

Of the ways to tell a tree the program uses one: a record of both parts in every
directory, and nothing else. So the tree is read back as it is from whatever tells
it, and all of the data are looked into. Whether there is room is then a question
of `nesting` alone, and `ofDatum?_toDatum` says that the reader answers with the
tree exactly if the data fit.

The contents are a parameter here as they are for trees. All that is asked of
them is that they are read back themselves, with the same proviso, which is
`Reading.Inverts`.

Each directory on the way down costs two records, itself and the one that holds
its subdirectories, so the nesting is known from the number of levels up to the
nesting of a single content.

## Main definitions

* `Reading.Inverts`: Contents are read back, as far as there is room.
* `levels`: How many directories of a tree lie in one another.

## Theorems

* `tells_toDatum`: The data of a tree tell it.
* `ofDatum?_toDatum`: A tree is read back if there is room, and else not at all.
* `nesting_toDatum`: The nesting of a tree, by its levels.
-/

namespace StrataShell

namespace Dir

variable {F : Type} {file : F → Datum} {reading : Reading F}

/-- Contents that are told by `file` are read back, as far as there is room. -/
def Reading.Inverts (reading : Reading F) (file : F → Datum) : Prop :=
  ∀ content room, reading.file room (file content)
    = if room.fits (file content).nesting then some content else none

/-! ### The data of a tree tell it -/

theorem tellsEntries_files (files : NameMap F) :
    TellsEntries (fun content told => told = file content) files
      (files.map (fun entry => (some entry.1, file entry.2))) := by
  induction files with
  | nil => exact .nil
  | cons entry rest ih => exact .cons rfl ih

mutual

/-- The data of a tree tell it: a record of both parts in every directory. -/
theorem tells_toDatum : ∀ d : Dir F,
    Tells (fun content told => told = file content) d (toDatum file d)
  | ⟨files, dirs⟩ =>
    .intro _ _ (by simp [toDatum, IsNode]) (.given (tellsEntries_files files))
      (.given (tellsEntries_childFields dirs))

-- The same for the subdirectories of a directory.
theorem tellsEntries_childFields : ∀ dirs : List (String × Dir F),
    TellsEntries (Tells (fun content told => told = file content)) dirs (childFields file dirs)
  | [] => .nil
  | (_, child) :: rest => .cons (tells_toDatum child) (tellsEntries_childFields rest)

end

mutual

-- All of the data of a tree are looked into.
theorem reach_toDatum (file : F → Datum) :
    ∀ d : Dir F, reach (toDatum file d) = (toDatum file d).nesting
  | ⟨files, dirs⟩ => by
    have hdirs := entriesReach_childFields file dirs
    have hne : dirsField ≠ filesField := by decide
    simp only [toDatum, reach, fieldsReach, Datum.nesting, Datum.fieldsNesting, mapSize,
      fieldsNesting_eq, dirsReach, hdirs, Option.some.injEq, if_true, if_neg hne]

-- The same for the subdirectories of a directory.
theorem entriesReach_childFields (file : F → Datum) : ∀ dirs : List (String × Dir F),
    entriesReach (childFields file dirs) = Datum.fieldsNesting (childFields file dirs)
  | [] => rfl
  | (_, child) :: rest => by
    rw [childFields, entriesReach, Datum.fieldsNesting, reach_toDatum file child,
      entriesReach_childFields file rest]

end

/-- A tree without repetitions is read back if there is room for all its
    records, and is not read at all if there is not. -/
theorem ofDatum?_toDatum (h : reading.Inverts file) {d : Dir F} (hd : d.Distinct)
    (room : Datum.Room) :
    ofDatum? reading room (toDatum file d)
      = if room.fits (toDatum file d).nesting then some d else none := by
  have hcontents : ∀ content,
      ReadsBack (fun content told => told = file content) reading.file Datum.nesting content := by
    rintro content told rfl room
    exact h content room
  rw [ofDatum?_of_tells hcontents hd _ (tells_toDatum d) room, reach_toDatum]

mutual

/-- How many directories of a tree lie in one another. -/
def levels : Dir F → Nat
  | ⟨_, dirs⟩ => childLevels dirs + 1

/-- The largest number of levels of a subdirectory. -/
def childLevels : List (String × Dir F) → Nat
  | [] => 0
  | (_, child) :: rest => max (levels child) (childLevels rest)

end

theorem fieldsNesting_files {bound : Nat} (h : ∀ content, (file content).nesting ≤ bound)
    (files : NameMap F) :
    Datum.fieldsNesting (files.map (fun entry => (some entry.1, file entry.2))) ≤ bound := by
  induction files with
  | nil => exact Nat.zero_le bound
  | cons entry rest ih => exact Nat.max_le.mpr ⟨h entry.2, ih⟩

mutual

/-- A tree is nested twice as deep as it has levels, and not deeper than that by
    more than a single content is. -/
theorem nesting_toDatum {bound : Nat} (h : ∀ content, (file content).nesting ≤ bound) :
    ∀ d : Dir F, 2 * d.levels ≤ (toDatum file d).nesting
      ∧ (toDatum file d).nesting ≤ 2 * d.levels + bound
  | ⟨files, dirs⟩ => by
    have hfiles := fieldsNesting_files h files
    have hdirs := fieldsNesting_childFields h dirs
    simp only [toDatum, Datum.nesting, Datum.fieldsNesting, levels]
    omega

-- The same for the subdirectories of a directory.
theorem fieldsNesting_childFields {bound : Nat} (h : ∀ content, (file content).nesting ≤ bound) :
    ∀ dirs : List (String × Dir F),
      2 * childLevels dirs ≤ Datum.fieldsNesting (childFields file dirs)
      ∧ Datum.fieldsNesting (childFields file dirs) ≤ 2 * childLevels dirs + bound
  | [] => by simp [childLevels, childFields, Datum.fieldsNesting]
  | (_, child) :: rest => by
    have hchild := nesting_toDatum h child
    have hrest := fieldsNesting_childFields h rest
    simp only [childFields, Datum.fieldsNesting, childLevels]
    omega

end

end Dir

end StrataShell
