import StrataShell.Dir
import StrataShell.Proofs.NameMap

/-!
# A Tree as a Table of Places

What a tree has at each place, and what becomes of that when one place of it is
changed. A directory holds its subdirectories as whole trees, so two trees that
differ deep inside differ in every directory on the way there. `entriesAt`
looks at a tree without that nesting: it gives for a place only the files and
the names of the directories found there. Seen this way a change is local.

The laws of `modifyAt` come in three cases, after the position of the place
that is asked for: at or below the changed place, on the way to it, or away
from it. The second and the third agree in what a directory has for itself,
which is `entriesAt_modifyAt_of_not_prefix`.

## Main definitions

* `Dir.Entries`: The files of a directory and the names of its directories.
* `Dir.entriesAt`: What a tree has at a place.
* `Dir.fileAt?`: The content of a file, by its place and name.
* `Dir.dirNamesAt`, `Dir.fileNamesAt`: The names at a place, in order.

## Theorems

* `resolve_modifyAt_append`: At and below a changed place is what the change
  made of it.
* `resolve_modifyAt_of_prefix`: On the way to it the rest of the way is changed.
* `resolve_modifyAt_of_not_prefix`: Elsewhere nothing is.
* `entriesAt_modifyAt_of_not_prefix`: No directory but those at and below the
  changed place gets other entries.
* `mem_dirNamesAt_iff`: A directory name at a place leads on from it.
-/

namespace StrataShell

namespace Dir

/-- What a directory has for itself: its files, and the names of its
    directories. -/
structure Entries (F : Type) where
  files : NameMap F := []
  /-- The names of the directories, in order. -/
  dirNames : List String := []

variable {F : Type}

/-- What a directory has for itself. -/
def entries (d : Dir F) : Entries F :=
  { files := d.files, dirNames := NameMap.names d.dirs }

/-- What a tree has at a place, if there is a directory. -/
def entriesAt (place : List String) (d : Dir F) : Option (Entries F) :=
  (d.resolve place).map entries

/-- The content of the file of a name at a place. -/
def fileAt? (place : List String) (name : String) (d : Dir F) : Option F :=
  (d.entriesAt place).bind (fun e => NameMap.get? name e.files)

/-- The names of the directories at a place, in order. -/
def dirNamesAt (place : List String) (d : Dir F) : List String :=
  ((d.entriesAt place).getD {}).dirNames

/-- The names of the files at a place, in order. -/
def fileNamesAt (place : List String) (d : Dir F) : List String :=
  NameMap.names ((d.entriesAt place).getD {}).files

theorem eq_of_files_of_dirs {d e : Dir F} (hfiles : d.files = e.files) (hdirs : d.dirs = e.dirs) :
    d = e := by
  cases d with
  | mk files dirs =>
    cases e with
    | mk files' dirs' => rw [show files = files' from hfiles, show dirs = dirs' from hdirs]

-- Files are looked up in the directory that the place leads to.
theorem fileAt?_eq_bind (place : List String) (name : String) (d : Dir F) :
    d.fileAt? place name = (d.resolve place).bind (fun sub => NameMap.get? name sub.files) := by
  rw [fileAt?, entriesAt, Option.bind_map]
  rfl

/-- At a changed place, and below it, is what the change made of the
    directory there. -/
theorem resolve_modifyAt_append (f : Dir F → Dir F) (p r : List String) (d : Dir F) :
    resolve (p ++ r) (modifyAt f p d) = (resolve p d).bind (fun sub => resolve r (f sub)) := by
  rw [resolve_append, resolve_modifyAt_self, Option.bind_map]
  rfl

/-- On the way to a changed place, the directories are changed along the rest
    of the way. -/
theorem resolve_modifyAt_of_prefix (f : Dir F → Dir F) (q r : List String) (d : Dir F) :
    resolve q (modifyAt f (q ++ r) d) = (resolve q d).map (modifyAt f r) := by
  induction q generalizing d with
  | nil => rfl
  | cons name rest ih =>
    cases h : NameMap.get? name d.dirs with
    | none =>
      simp only [List.cons_append, modifyAt, h, resolve_cons, Option.bind_none, Option.map_none]
    | some child =>
      simp only [List.cons_append, modifyAt, h, resolve_cons, withDir, NameMap.get?_insert_self,
        Option.bind_some, ih child]

/-- Away from a changed place, neither on the way to it nor below it, nothing
    changes. -/
theorem resolve_modifyAt_of_not_prefix {f : Dir F → Dir F} {p q : List String} {d : Dir F}
    (hpq : ¬ p <+: q) (hqp : ¬ q <+: p) : resolve q (modifyAt f p d) = resolve q d := by
  induction p generalizing q d with
  | nil => exact absurd List.nil_prefix hpq
  | cons name rest ih =>
    cases q with
    | nil => exact absurd List.nil_prefix hqp
    | cons other later =>
      cases h : NameMap.get? name d.dirs with
      | none => simp only [modifyAt, h]
      | some child =>
        by_cases hn : other = name
        · -- The two ways part further down, inside the same child.
          subst hn
          have hchild : resolve later (modifyAt f rest child) = resolve later child := by
            refine ih (fun hc => hpq ?_) (fun hc => hqp ?_)
            · exact List.cons_prefix_cons.mpr ⟨rfl, hc⟩
            · exact List.cons_prefix_cons.mpr ⟨rfl, hc⟩
          simp only [modifyAt, h, resolve_cons, withDir, NameMap.get?_insert_self,
            Option.bind_some, hchild]
        · simp only [modifyAt, h, resolve_cons, withDir, NameMap.get?_insert_of_ne hn]

/-- A change further down leaves a directory its own entries: the child on the
    way is put back under its name. -/
theorem entries_modifyAt {p : List String} (hp : p ≠ []) (f : Dir F → Dir F) (d : Dir F) :
    entries (modifyAt f p d) = entries d := by
  cases p with
  | nil => exact absurd rfl hp
  | cons name rest =>
    cases h : NameMap.get? name d.dirs with
    | none => simp only [modifyAt, h]
    | some child =>
      have hmem : name ∈ NameMap.names d.dirs := by
        rw [NameMap.mem_names_iff, h]
        rfl
      simp only [modifyAt, h, entries, withDir, NameMap.names_insert, if_pos hmem]

/-- Only the directories at and below a changed place get other entries. -/
theorem entriesAt_modifyAt_of_not_prefix {f : Dir F → Dir F} {p q : List String} {d : Dir F}
    (h : ¬ p <+: q) : entriesAt q (modifyAt f p d) = entriesAt q d := by
  by_cases hqp : q <+: p
  · -- On the way, the rest of the way is changed and not the directory itself.
    rcases hqp with ⟨r, hr⟩
    have hne : r ≠ [] := by
      intro hnil
      rw [hnil, List.append_nil] at hr
      exact h (hr ▸ List.prefix_refl q)
    rw [← hr, entriesAt, resolve_modifyAt_of_prefix, Option.map_map]
    exact congrArg (fun g => (resolve q d).map g) (funext (entries_modifyAt hne f))
  · rw [entriesAt, resolve_modifyAt_of_not_prefix h hqp, entriesAt]

-- At a changed place and below it, the entries are those that the change made.
theorem entriesAt_modifyAt_append (f : Dir F → Dir F) (p r : List String) (d : Dir F) :
    entriesAt (p ++ r) (modifyAt f p d) = (resolve p d).bind (fun sub => entriesAt r (f sub)) := by
  rw [entriesAt, resolve_modifyAt_append]
  cases resolve p d <;> rfl

-- Places below one place are looked up in the directory there.
theorem entriesAt_append (p r : List String) (d : Dir F) :
    entriesAt (p ++ r) d = (resolve p d).bind (entriesAt r) := by
  rw [entriesAt, resolve_append]
  cases resolve p d <;> rfl

/-- A child directory has what it was entered with, and the way through every
    other name is as before. -/
theorem entriesAt_withDir (d child : Dir F) (name other : String) (later : List String) :
    entriesAt (other :: later) (d.withDir name child)
      = if other = name then entriesAt later child else entriesAt (other :: later) d := by
  by_cases h : other = name
  · rw [if_pos h, h, entriesAt, resolve_cons, withDir, NameMap.get?_insert_self]
    rfl
  · rw [if_neg h, entriesAt, resolve_cons, withDir, NameMap.get?_insert_of_ne h]
    rfl

-- The directory without entries has nothing but itself.
theorem entriesAt_empty (place : List String) :
    entriesAt place (empty : Dir F) = if place = [] then some {} else none := by
  cases place with
  | nil => rfl
  | cons name rest => rw [if_neg (List.cons_ne_nil name rest)]; rfl

theorem isSome_entriesAt (place : List String) (d : Dir F) :
    (entriesAt place d).isSome = (resolve place d).isSome :=
  Option.isSome_map

-- A name at a place is one step further on the way.
theorem isSome_entriesAt_concat {place : List String} {name : String} {d : Dir F} :
    (entriesAt (place ++ [name]) d).isSome = true
      ↔ ∃ e, entriesAt place d = some e ∧ name ∈ e.dirNames := by
  rw [isSome_entriesAt, resolve_append]
  cases h : resolve place d with
  | none => simp [entriesAt, h]
  | some sub =>
    have hlast : resolve [name] sub = NameMap.get? name sub.dirs := by
      rw [resolve_cons]
      cases NameMap.get? name sub.dirs <;> rfl
    rw [Option.bind_some, hlast, ← NameMap.mem_names_iff]
    simp [entriesAt, h, entries]

/-- What leads to a directory leads there through directories. -/
theorem isSome_resolve_of_append {p q : List String} {d : Dir F}
    (h : (resolve (p ++ q) d).isSome = true) : (resolve p d).isSome = true := by
  rw [resolve_append] at h
  cases hp : resolve p d with
  | none => rw [hp] at h; exact h
  | some sub => rfl

/-- The names that lead on from a place are the directory names there. -/
theorem mem_dirNamesAt_iff {place : List String} {name : String} {d : Dir F} :
    name ∈ dirNamesAt place d ↔ (resolve (place ++ [name]) d).isSome = true := by
  rw [← isSome_entriesAt, isSome_entriesAt_concat, dirNamesAt]
  cases entriesAt place d with
  | none => simp
  | some e => simp

/-- A directory of a tree without repetitions has none either. -/
theorem Distinct.resolve {place : List String} {d sub : Dir F} (h : d.Distinct)
    (hsub : Dir.resolve place d = some sub) : sub.Distinct := by
  induction place generalizing d with
  | nil => exact Option.some.inj hsub ▸ h
  | cons name rest ih =>
    rw [resolve_cons] at hsub
    rcases Option.bind_eq_some_iff.mp hsub with ⟨child, hchild, hrest⟩
    cases h with
    | intro _ _ _ children => exact ih (children name child hchild) hrest

-- A tree is without repetitions if its root and the trees below the root are.
theorem Distinct.of_entries {d : Dir F} (files : NameMap.Distinct d.files)
    (dirs : NameMap.Distinct d.dirs) (children : ∀ entry ∈ d.dirs, entry.2.Distinct) :
    d.Distinct :=
  Distinct.intro d files dirs (fun name child h => children (name, child) (NameMap.mem_of_get? h))

end Dir

end StrataShell
