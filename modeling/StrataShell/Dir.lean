import StrataShell.NameMap

/-!
# Directories

A directory holds files and further directories, each under a name and each in
order of entry. The two kinds have separate name spaces: one name may stand for
a file and for a directory at once.

What a file holds is a parameter. The permanent layer keeps contents that may
still have to be fetched, the local layer keeps plain text, and a snapshot of a
disk keeps bytes; the walking and the updating are the same for all three.

A place in a tree is given by the list of directory names that leads to it.
Names are compared as they are, so this module knows nothing of separators;
turning the text of a path into such a list is the concern of `Path`.

## Main definitions

* `Dir`: A directory.
* `withFile`, `withDir`: A directory with one more entry.
* `resolve`: The directory that a list of names leads to.
* `modifyAt`: Change the directory at one place.
* `Distinct`: No directory of the tree has two entries of one kind and name.

## Theorems

* `resolve_append`: Walking along two lists is walking along one after the
  other.
* `resolve_modifyAt_self`: The changed place holds the changed directory.
* `modifyAt_eq_self`: Changing a place that does not exist changes nothing.
-/

namespace StrataShell

/-- A directory: files and directories by name, in order of entry. -/
structure Dir (F : Type) where
  files : NameMap F := []
  dirs : List (String × Dir F) := []

namespace Dir

variable {F : Type}

/-- The directory without entries. -/
def empty : Dir F := {}

/-- Whether a directory has no entries. -/
def isEmpty (d : Dir F) : Bool :=
  d.files.isEmpty && d.dirs.isEmpty

/-- The directory with a file of the given name and content. -/
def withFile (d : Dir F) (name : String) (content : F) : Dir F :=
  { d with files := NameMap.insert name content d.files }

/-- The directory with a child directory of the given name. -/
def withDir (d : Dir F) (name : String) (child : Dir F) : Dir F :=
  { d with dirs := NameMap.insert name child d.dirs }

/-- The directory that a list of names leads to, if each of them is there. -/
def resolve : List String → Dir F → Option (Dir F)
  | [], d => some d
  | name :: rest, d => (NameMap.get? name d.dirs).bind (resolve rest)

/-- Change the directory that a list of names leads to. A list that leads
    nowhere changes nothing. -/
def modifyAt (f : Dir F → Dir F) : List String → Dir F → Dir F
  | [], d => f d
  | name :: rest, d =>
    match NameMap.get? name d.dirs with
    | none => d
    | some child => d.withDir name (modifyAt f rest child)

/-- No directory of the tree has two entries of one kind and name. -/
inductive Distinct : Dir F → Prop
  | intro (d : Dir F) (files : NameMap.Distinct d.files) (dirs : NameMap.Distinct d.dirs)
      (children : ∀ name child, NameMap.get? name d.dirs = some child → Distinct child) : Distinct d

@[simp] theorem resolve_nil (d : Dir F) : resolve [] d = some d := rfl

@[simp] theorem resolve_cons (name : String) (rest : List String) (d : Dir F) :
    resolve (name :: rest) d = (NameMap.get? name d.dirs).bind (resolve rest) := rfl

/-- Walking along two lists is walking along one after the other. -/
theorem resolve_append (p q : List String) (d : Dir F) :
    resolve (p ++ q) d = (resolve p d).bind (resolve q) := by
  induction p generalizing d with
  | nil => rfl
  | cons name rest ih =>
    simp only [List.cons_append, resolve_cons]
    cases NameMap.get? name d.dirs with
    | none => rfl
    | some child => exact ih child

/-- The changed place holds the changed directory. -/
theorem resolve_modifyAt_self (f : Dir F → Dir F) (p : List String) (d : Dir F) :
    resolve p (modifyAt f p d) = (resolve p d).map f := by
  induction p generalizing d with
  | nil => rfl
  | cons name rest ih =>
    cases h : NameMap.get? name d.dirs with
    | none => simp only [modifyAt, h, resolve_cons, Option.bind_none, Option.map_none]
    | some child =>
      simp only [modifyAt, h, resolve_cons, withDir, NameMap.get?_insert_self, Option.bind_some]
      exact ih child

/-- Entering a child directory that is there already changes nothing. -/
theorem withDir_of_get? {d child : Dir F} {name : String}
    (h : NameMap.get? name d.dirs = some child) : d.withDir name child = d := by
  cases d with
  | mk files dirs => simp only [withDir, NameMap.insert_of_get? h]

/-- Changing a place that does not exist changes nothing. -/
theorem modifyAt_eq_self {f : Dir F → Dir F} {p : List String} {d : Dir F}
    (h : resolve p d = none) : modifyAt f p d = d := by
  induction p generalizing d with
  | nil => simp at h
  | cons name rest ih =>
    cases hc : NameMap.get? name d.dirs with
    | none => simp only [modifyAt, hc]
    | some child =>
      simp only [resolve_cons, hc, Option.bind_some] at h
      simp only [modifyAt, hc, ih h, withDir_of_get? hc]

end Dir

end StrataShell
