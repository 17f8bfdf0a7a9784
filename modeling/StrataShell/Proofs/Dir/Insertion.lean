import StrataShell.Proofs.Dir
import StrataShell.Proofs.Path

/-!
# Entering a Directory at One Place

A tree is changed by walking to a place in it and entering something there. The
walk carries along a way to put the tree together again around whatever it has
come to, so that at its end a new directory can be put in place of the one that
was found. `modifyAt` takes the walk and the change in one, and knows no such
cursor; here the two are shown to be the same, which makes it plain that the
walk to a change finds a directory exactly where a walk to look at one does.

What a directory entered under a name then does to the tree depends on how a
place lies to the one that is changed. Below the new name is what was entered.
On the way to the changed place, and there, directories keep their files and the
order of the names in them, but for the new name at the end of the last one if
it was not there before. Everywhere else nothing is different, and this includes
what stood beside the new name.

The name may be any text. One that is empty or holds the separator is entered
like the others; no path leads to it, so that of the three cases the first never
arises.

## Main definitions

* `Dir.Cursor`: A directory that a walk has come to, and how to replace it.
* `Dir.Cursor.step?`, `Dir.Cursor.walk?`: Go on by one name, or by several.
* `Dir.cursorAt?`: The walk from the root of a tree.

## Theorems

* `Cursor.walk?_eq`: A walk finds what resolving finds, and puts back in place.
* `elim_cursorAt?`: A change at a place is a change at the end of the walk.
* `resolve_modifyAt_withDir_below`: Below an entered name is what was entered.
* `entries_modifyAt_withDir`: What is seen on the way to an entered name.
* `resolve_modifyAt_withDir_beside`: Nothing else is different.
* `insertion_is_local`: What entering a directory does at each path.
-/

namespace StrataShell

namespace Dir

variable {F : Type}

/-! ### The walk to a place -/

/-- A directory of a tree that a walk has come to. -/
structure Cursor (F : Type) where
  /-- The directory as it was found. -/
  node : Dir F
  /-- The whole tree, with another directory in place of the one found. -/
  put : Dir F → Dir F

namespace Cursor

/-- Go on to the child directory of a name, if there is one. -/
def step? (cur : Cursor F) (name : String) : Option (Cursor F) :=
  (NameMap.get? name cur.node.dirs).map
    (fun child => { node := child, put := fun new => cur.put (cur.node.withDir name new) })

/-- Go on along a list of names, if each of them is there. -/
def walk? (cur : Cursor F) (names : List String) : Option (Cursor F) :=
  names.foldlM step? cur

/-- A walk finds the directory that the names lead to, and puts another one in
    its place by a change at that place. -/
theorem walk?_eq (cur : Cursor F) (names : List String) :
    cur.walk? names = (cur.node.resolve names).map (fun sub =>
      { node := sub, put := fun new => cur.put (modifyAt (fun _ => new) names cur.node) }) := by
  induction names generalizing cur with
  | nil => rfl
  | cons name rest ih =>
    rw [walk?, List.foldlM_cons, step?, resolve_cons]
    cases h : NameMap.get? name cur.node.dirs with
    | none => rfl
    | some child =>
      -- The child is put back under its name, and that change is put into the tree.
      have hput : ∀ new, modifyAt (fun _ => new) (name :: rest) cur.node
          = cur.node.withDir name (modifyAt (fun _ => new) rest child) := by
        intro new
        simp only [modifyAt, h]
      simp only [hput]
      exact ih _

end Cursor

/-- The walk from the root of a tree to a place. -/
def cursorAt? (place : List String) (d : Dir F) : Option (Cursor F) :=
  Cursor.walk? { node := d, put := id } place

theorem cursorAt?_eq (place : List String) (d : Dir F) :
    d.cursorAt? place = (d.resolve place).map (fun sub =>
      { node := sub, put := fun new => modifyAt (fun _ => new) place d }) :=
  Cursor.walk?_eq _ place

-- Only what becomes of the directory that is found makes a difference.
theorem modifyAt_const {f : Dir F → Dir F} {place : List String} {d sub : Dir F}
    (h : d.resolve place = some sub) : modifyAt (fun _ => f sub) place d = modifyAt f place d := by
  induction place generalizing d with
  | nil =>
    rw [resolve_nil, Option.some.injEq] at h
    rw [modifyAt, modifyAt, h]
  | cons name rest ih =>
    rcases Option.bind_eq_some_iff.mp h with ⟨child, hchild, hrest⟩
    simp only [modifyAt, hchild, ih hrest]

/-- To change the directory at a place is to walk there and put the changed
    directory in its place. -/
theorem elim_cursorAt? (f : Dir F → Dir F) (place : List String) (d : Dir F) :
    (d.cursorAt? place).elim d (fun cur => cur.put (f cur.node)) = modifyAt f place d := by
  rw [cursorAt?_eq]
  cases h : d.resolve place with
  | none => exact (modifyAt_eq_self h).symm
  | some sub => exact modifyAt_const h

/-! ### A directory entered at a place -/

section

variable (d child : Dir F) (place : List String) (name : String)

/-- Below the name under which a directory was entered is what is below that
    directory. -/
theorem resolve_modifyAt_withDir_below {sub : Dir F} (h : d.resolve place = some sub)
    (below : List String) :
    resolve (place ++ [name] ++ below) (modifyAt (fun sub => sub.withDir name child) place d)
      = resolve below child := by
  rw [List.append_assoc, resolve_modifyAt_append, h, Option.bind_some, List.singleton_append,
    resolve_cons, withDir, NameMap.get?_insert_self, Option.bind_some]

/-- A directory on the way to a change keeps its files and the order of its
    names; where the way ends, a new name goes to the end. -/
theorem entries_modifyAt_withDir (way : List String) :
    let after := modifyAt (fun sub => sub.withDir name child) way d
    after.files = d.files
      ∧ NameMap.names after.dirs = if way = [] ∧ name ∉ NameMap.names d.dirs
        then NameMap.names d.dirs ++ [name] else NameMap.names d.dirs := by
  intro after
  by_cases hway : way = []
  · have hafter : after = d.withDir name child := by
      simp only [after, hway, modifyAt]
    rw [hafter]
    refine ⟨rfl, (NameMap.names_insert name child d.dirs).trans ?_⟩
    by_cases hname : name ∈ NameMap.names d.dirs
    · rw [if_pos hname, if_neg (fun hc => hc.2 hname)]
    · rw [if_neg hname, if_pos ⟨hway, hname⟩]
  · have hentries : entries after = entries d := entries_modifyAt hway _ d
    rw [if_neg (fun hc => hway hc.1)]
    exact ⟨congrArg Entries.files hentries, congrArg Entries.dirNames hentries⟩

/-- Neither on the way to a directory that was entered nor below its name is
    anything different. -/
theorem resolve_modifyAt_withDir_beside {q : List String} (hbelow : ¬ place ++ [name] <+: q)
    (hway : ¬ q <+: place) :
    resolve q (modifyAt (fun sub => sub.withDir name child) place d) = resolve q d := by
  by_cases hplace : place <+: q
  · rcases hplace with ⟨later, hlater⟩
    cases later with
    | nil =>
      rw [List.append_nil] at hlater
      exact absurd (hlater ▸ List.prefix_refl q) hway
    | cons other rest =>
      -- The way goes on by another name than the one that was entered.
      have hne : other ≠ name := by
        intro heq
        refine hbelow ⟨rest, ?_⟩
        rw [← hlater, heq, List.append_assoc, List.singleton_append]
      rw [← hlater, resolve_modifyAt_append, resolve_append]
      refine Option.bind_congr (fun sub _ => ?_)
      rw [resolve_cons, resolve_cons, withDir, NameMap.get?_insert_of_ne hne]
  · exact resolve_modifyAt_of_not_prefix hplace hway

end

/-- What it does to a tree to walk to a path and enter a directory there under a
    name. The walk finds a directory exactly if the path leads to one, and then
    that one; if it finds none, the tree stays as it is. Otherwise a path that
    goes on by the name leads to what the rest of it leads to in the directory
    that was entered. A path on the way leads to a directory with the same files
    and the same names in the same order as before, but for the name itself,
    which stands last at the end of the way if it is new there, and in its former
    position if it is not. Every other path leads where it did. -/
theorem insertion_is_local (d child : Dir F) (path name : String) :
    let place := Path.segments path
    let after := (d.cursorAt? place).elim d (fun cur => cur.put (cur.node.withDir name child))
    after = d.modifyAt (fun sub => sub.withDir name child) place
      ∧ (d.cursorAt? place).map Cursor.node = d.resolve place
      ∧ (d.resolve place = none → after = d)
      ∧ ∀ other, let q := Path.segments other
        ((d.resolve place).isSome = true → ∀ below, q = place ++ [name] ++ below →
          after.resolve q = child.resolve below)
        ∧ ((d.resolve place).isSome = true → q <+: place →
          ∃ sub sub', d.resolve q = some sub ∧ after.resolve q = some sub'
            ∧ sub'.files = sub.files
            ∧ NameMap.names sub'.dirs = if q = place ∧ name ∉ NameMap.names sub.dirs
              then NameMap.names sub.dirs ++ [name] else NameMap.names sub.dirs)
        ∧ ((¬ ∃ below, q = place ++ [name] ++ below) → ¬ q <+: place →
          after.resolve q = d.resolve q) := by
  intro place after
  have hafter : after = d.modifyAt (fun sub => sub.withDir name child) place :=
    elim_cursorAt? (fun sub => sub.withDir name child) place d
  have hfound : (d.cursorAt? place).map Cursor.node = d.resolve place := by
    rw [cursorAt?_eq, Option.map_map]
    exact Option.map_id'
  refine ⟨hafter, hfound, fun h => hafter.trans (modifyAt_eq_self h), fun other => ?_⟩
  intro q
  refine ⟨fun h below hq => ?below, fun h hq => ?way, fun hbelow hq => ?beside⟩
  case below =>
    rcases Option.isSome_iff_exists.mp h with ⟨sub, hsub⟩
    rw [hafter, hq, resolve_modifyAt_withDir_below d child place name hsub]
  case way =>
    rcases hq with ⟨rest, hrest⟩
    rw [← hrest] at h
    rcases Option.isSome_iff_exists.mp (isSome_resolve_of_append h) with ⟨sub, hsub⟩
    have hend : rest = [] ↔ q = place := by
      rw [← hrest, List.self_eq_append_right]
    have hentries := entries_modifyAt_withDir sub child name rest
    simp only [hend] at hentries
    refine ⟨sub, _, hsub, ?_, hentries⟩
    rw [hafter, ← hrest, resolve_modifyAt_of_prefix, hsub, Option.map_some]
  case beside =>
    rw [hafter]
    refine resolve_modifyAt_withDir_beside d child place name (fun hc => hbelow ?_) hq
    rcases hc with ⟨below, hc⟩
    exact ⟨below, hc.symm⟩

-- A name that holds the separator is entered, and no path leads to it.
example :
    let d : Dir String := { dirs := [("a", {})] }
    let after := d.modifyAt (fun sub => sub.withDir "x/y" {}) (Path.segments "/a")
    after.dirNamesAt ["a"] = ["x/y"] ∧ (after.resolve (Path.segments "/a/x/y")).isNone = true := by
  decide

end Dir

end StrataShell
