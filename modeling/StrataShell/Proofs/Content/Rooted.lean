import StrataShell.Proofs.Content.Below
import StrataShell.Proofs.Text.Layout

/-!
# Rooted Names in the Middle of a Path

A name that begins with a separator is rooted: placed below a place, it takes
the place of everything that stood before it. Which characters separate names is
a matter of the system. The check of a path minds both kinds of slash and
refuses a path that begins with one of them, but it passes over empty pieces
inside the path. The join cuts at the plain slash only. A backslash right behind
a slash is for the check the end of an empty piece, and for the join the
beginning of a name.

Where the plain slash is the only separator, this is a name like any other, and
the place is the one that the join writes. Where the backslash is one too, the
name is rooted, and with it the root is lost. This module says for which paths
that can happen. It is a property of the text alone: a slash is followed by a
backslash somewhere.

## Main definitions

* `isRooted`: Whether a name begins with a separator.
* `pushUnder`: Place one name below a place, for any choice of separators.
* `Continues`: A place goes on from another by a name.
* `Unbroken`: From every root, each place goes on from the one before.

## Theorems

* `unbroken_iff`: The way is unbroken exactly if no name is rooted.
* `foldl_pushUnder_slash`: With the slash alone the names are joined.
* `exists_backslash_iff`: When a segment begins with a backslash.
* `pushes_continue_iff`: For which paths no name is rooted.
-/

namespace StrataShell

namespace Content

/-- Whether a name is rooted where the given characters separate names: it
    begins with one of them. -/
def isRooted (separators : List Char) (name : String) : Bool :=
  name.toList.head?.any separators.contains

/-- Place one name below a place, where the given characters separate names. A
    rooted name takes the place of what stands before it. -/
def pushUnder (separators : List Char) (place name : String) : String :=
  if isRooted separators name then name
  else if place = "" ∨ place.toList.getLast?.any separators.contains then place ++ name
  else place ++ "/" ++ name

/-- A place goes on from another by a name, with or without a slash between
    them. -/
def Continues (place name next : String) : Prop :=
  next = place ++ name ∨ next = place ++ "/" ++ name

/-- From every root, each place on the way along some names goes on from the one
    before. -/
def Unbroken (separators : List Char) (names : List String) : Prop :=
  ∀ root first name, first ++ [name] <+: names →
    Continues (first.foldl (pushUnder separators) root) name
      ((first ++ [name]).foldl (pushUnder separators) root)

variable {separators : List Char} {path place name : String} {names : List String}

theorem isRooted_eq_false_iff :
    isRooted separators name = false ↔ ∀ c ∈ separators, name.toList.head? ≠ some c := by
  rw [isRooted]
  cases name.toList.head? with
  | none => simp
  | some d =>
    rw [Option.any_some, ← Bool.not_eq_true, List.contains_iff_mem]
    exact ⟨fun h c hc heq => h (Option.some.inj heq ▸ hc), fun h hd => h d hd rfl⟩

/-! ### The way along some names -/

/-- A name that is not rooted goes on from any place. -/
theorem continues_of_not_isRooted (h : isRooted separators name = false) (place : String) :
    Continues place name (pushUnder separators place name) := by
  rw [pushUnder, if_neg (Bool.eq_false_iff.mp h)]
  split
  · exact Or.inl rfl
  · exact Or.inr rfl

/-- A rooted name goes on from no place but the empty one. -/
theorem not_continues_of_isRooted (h : isRooted separators name = true) (hplace : place ≠ "") :
    ¬ Continues place name (pushUnder separators place name) := by
  rw [pushUnder, if_pos h]
  rintro (hnext | hnext)
  · exact hplace (String.append_eq_right_iff.mp hnext.symm)
  · have hstart := String.append_eq_right_iff.mp hnext.symm
    exact hplace (String.append_eq_empty_iff.mp hstart).1

theorem pushUnder_ne_empty (hname : name ≠ "") (separators : List Char) (place : String) :
    pushUnder separators place name ≠ "" := by
  rw [pushUnder]
  split
  · exact hname
  · split <;> exact fun hempty => hname (String.append_eq_empty_iff.mp hempty).2

-- From a place that is not empty only such places are reached.
theorem foldl_pushUnder_ne_empty (hnames : ∀ name ∈ names, name ≠ "") (separators : List Char)
    (hplace : place ≠ "") : names.foldl (pushUnder separators) place ≠ "" := by
  induction names generalizing place with
  | nil =>
    rw [List.foldl_nil]
    exact hplace
  | cons name rest ih =>
    have hname := hnames name List.mem_cons_self
    rw [List.foldl_cons]
    exact ih (fun other hmem => hnames other (List.mem_cons_of_mem name hmem))
      (pushUnder_ne_empty hname separators place)

/-- The way along some names is unbroken exactly if none of them is rooted. -/
theorem unbroken_iff (hnames : ∀ name ∈ names, name ≠ "") (separators : List Char) :
    Unbroken separators names ↔ ∀ name ∈ names, isRooted separators name = false := by
  constructor
  · intro h name hmem
    rw [← Bool.not_eq_true]
    intro hrooted
    rcases List.append_of_mem hmem with ⟨first, later, hparts⟩
    have hprefix : first ++ [name] <+: names := ⟨later, by rw [hparts, ← List.append_cons]⟩
    have hfirst : ∀ other ∈ first, other ≠ "" := by
      intro other hother
      refine hnames other ?_
      rw [hparts]
      exact List.mem_append_left _ hother
    -- Begun at a root with a text, the places before the name have one too.
    have hplace : first.foldl (pushUnder separators) "/" ≠ "" :=
      foldl_pushUnder_ne_empty hfirst separators (by decide)
    have hnext := h "/" first name hprefix
    rw [List.foldl_append, List.foldl_cons, List.foldl_nil] at hnext
    exact not_continues_of_isRooted hrooted hplace hnext
  · intro h root first name hprefix
    have hmem : name ∈ names :=
      hprefix.subset (List.mem_append_right first List.mem_cons_self)
    rw [List.foldl_append, List.foldl_cons, List.foldl_nil]
    exact continues_of_not_isRooted (h name hmem) _

/-- Where the slash alone separates names, names without one are joined as they
    are. -/
theorem foldl_pushUnder_slash (h : ∀ name ∈ names, isRooted ['/'] name = false)
    (place : String) : names.foldl (pushUnder ['/']) place = names.foldl push place := by
  induction names generalizing place with
  | nil => rw [List.foldl_nil, List.foldl_nil]
  | cons name rest ih =>
    have hpush : pushUnder ['/'] place name = push place name := by
      have hlast : place.toList.getLast?.any ['/'].contains = true
          ↔ place.toList.getLast? = some '/' := by
        cases place.toList.getLast? <;> simp
      rw [pushUnder, if_neg (Bool.eq_false_iff.mp (h name List.mem_cons_self)), push]
      simp only [hlast]
    rw [List.foldl_cons, List.foldl_cons, hpush]
    exact ih (fun other hmem => h other (List.mem_cons_of_mem name hmem)) _

/-! ### The segments of a path -/

-- A segment does not hold the slash, and so does not begin with it.
theorem head?_ne_slash (hname : name ∈ Text.fields '/' path) : name.toList.head? ≠ some '/' :=
  fun hhead => Text.notMem_of_mem_fields hname (List.mem_of_head? hhead)

/-- Some segment of an allowed path begins with a backslash exactly if one
    stands right behind a slash. -/
theorem exists_backslash_iff (h : isAllowed path = true) :
    (∃ name ∈ Text.fields '/' path, name.toList.head? = some '\\')
      ↔ ['/', '\\'] <:+: path.toList := by
  have hstart : path.toList.head? ≠ some '\\' := by
    rcases (isAllowed_iff.mp h).1 with ⟨c, rest, hpath, _, hback⟩
    rw [hpath, List.head?_cons]
    exact fun hc => hback (Option.some.inj hc)
  rw [Text.exists_head_mem_fields_iff (by decide), or_iff_right hstart]

/-- For which allowed paths no name is rooted. A segment never begins with a
    slash, so where the slash alone separates names, the place of the path is
    the one that its segments lead to. Some segment begins with a backslash,
    however, if a backslash stands right behind a slash in the path, and only
    then. For any choice of separators, the way along the segments is unbroken
    from every root exactly if no segment begins with one of them. -/
theorem pushes_continue_iff {path : String} (h : isAllowed path = true) :
    let names := Text.fields '/' path
    (∀ root, contentPath root path = some (names.foldl (pushUnder ['/']) root))
      ∧ (∀ name ∈ names, name.toList.head? ≠ some '/')
      ∧ ((∀ name ∈ names, name.toList.head? ≠ some '\\') ↔ ¬ ['/', '\\'] <:+: path.toList)
      ∧ (∀ separators, Unbroken separators names
        ↔ ∀ name ∈ names, ∀ c ∈ separators, name.toList.head? ≠ some c) := by
  intro names
  refine ⟨fun root => ?place, fun name => head?_ne_slash, ?backslash, fun separators => ?unbroken⟩
  case place =>
    have hslash : ∀ name ∈ names, isRooted ['/'] name = false := fun name hname =>
      isRooted_eq_false_iff.mpr (List.forall_mem_singleton.mpr (head?_ne_slash hname))
    rw [contentPath, if_pos h, foldl_pushUnder_slash hslash]
  case backslash =>
    rw [← exists_backslash_iff h, not_exists]
    exact forall_congr' (fun name => not_and.symm)
  case unbroken =>
    rw [unbroken_iff (fun name => Text.ne_empty_of_mem_fields)]
    exact forall₂_congr (fun name _ => isRooted_eq_false_iff)

/-- A path with both kinds of slash in it, next to each other, but not in the
    order that matters. -/
theorem pushes_continue_iff_mixed :
    isAllowed "a\\/b" = true ∧ Text.fields '/' "a\\/b" = ["a\\", "b"]
      ∧ ∀ name ∈ Text.fields '/' "a\\/b", name.toList.head? ≠ some '\\' := by
  have h : isAllowed "a\\/b" = true := by decide
  exact ⟨h, by decide, (pushes_continue_iff h).2.2.1.mpr (by decide)⟩

/-- A path that is allowed, with a name that begins with a backslash. Where that
    is a separator, the name is rooted and nothing remains of the root. -/
theorem rooted_behind_slash :
    isAllowed "a/\\b" = true ∧ Text.fields '/' "a/\\b" = ["a", "\\b"]
      ∧ "\\b".toList.head? = some '\\'
      ∧ contentPath "/srv/content" "a/\\b" = some "/srv/content/a/\\b"
      ∧ ["a", "\\b"].foldl (pushUnder ['/', '\\']) "/srv/content" = "\\b" := by
  exact ⟨by decide, by decide, by decide, by decide, by decide⟩

end Content

end StrataShell
