import StrataShell.Content.Address
import StrataShell.Proofs.Text.Fields

/-!
# Where an Allowed Path Leads

The check of a path and the join of it to a root cut the path differently: the
check takes either slash for a separator, the join only the plain one. A segment
of the join may therefore hold several pieces of the check, with backslashes
between them. It is still a step down and nothing else. A segment that is a
single or a double dot has no backslash in it and is a piece of the check as it
stands, and a colon in a segment is in one of its pieces.

Joining then has a closed form. After the first segment a separator is missing
before each further one, since no segment ends with one, so the segments are
joined with single separators behind the root.

## Main definitions

* `IsStep`: A name that leads one step down and nowhere else.
* `below`: The place that some names lead to below a root.
* `Inside`: Which places are below a root.

## Theorems

* `isAllowed_iff`: What the check asks for.
* `isStep_of_mem_fields`: The segments of an allowed path are steps down.
* `foldl_push`: Placing names one after another is joining them.
* `contentPath_eq`: The place of an allowed path.
* `inside_of_contentPath`: No path has a place that is not below the root.
-/

namespace StrataShell

namespace Content

/-- A name that leads one step down: it is not empty, is neither of the two dot
    names, and holds neither the separator nor a colon. -/
structure IsStep (name : String) : Prop where
  ne_empty : name ≠ ""
  noSlash : '/' ∉ name.toList
  ne_here : name ≠ "."
  ne_up : name ≠ ".."
  noColon : ':' ∉ name.toList

/-- The separator that is missing behind a place, if one is. -/
def missingSlash (place : String) : String :=
  if place = "" ∨ place.toList.getLast? = some '/' then "" else "/"

/-- The place that some names lead to below a root: the names behind it, with
    single separators. -/
def below (root : String) (names : List String) : String :=
  root ++ missingSlash root ++ String.intercalate "/" names

/-- A place below a root: one or more steps down from it. -/
def Inside (root place : String) : Prop :=
  ∃ names, names ≠ [] ∧ (∀ name ∈ names, IsStep name) ∧ place = below root names

/-! ### The check -/

theorem isAllowed_iff {path : String} :
    isAllowed path = true ↔ (∃ c rest, path.toList = c :: rest ∧ c ≠ '/' ∧ c ≠ '\\')
      ∧ ∀ piece ∈ strictPieces path, isPlainPiece piece = true := by
  unfold isAllowed
  cases path.toList with
  | nil => simp
  | cons c rest => simp [and_assoc]

/-- Each segment of an allowed path is a step down. -/
theorem isStep_of_mem_fields {path name : String} (h : isAllowed path = true)
    (hname : name ∈ Text.fields '/' path) : IsStep name := by
  have hplain : ∀ piece ∈ Text.fields '\\' name, isPlainPiece piece = true := by
    intro piece hpiece
    refine (isAllowed_iff.mp h).2 piece ?_
    exact List.mem_flatMap.mpr ⟨name, (List.mem_filter.mp hname).1, hpiece⟩
  refine ⟨Text.ne_empty_of_mem_fields hname, Text.notMem_of_mem_fields hname, ?_, ?_, ?_⟩
  · rintro rfl
    exact absurd (hplain "." (by decide)) (by decide)
  · rintro rfl
    exact absurd (hplain ".." (by decide)) (by decide)
  · -- A colon is no separator, so it is in one of the pieces.
    intro hcolon
    rcases Text.exists_mem_fields hcolon (by decide : ':' ≠ '\\') with ⟨piece, hpiece, hmem⟩
    have hp := hplain piece hpiece
    simp [isPlainPiece, hmem] at hp

-- An allowed path begins with a character that is no separator.
theorem fields_ne_nil_of_isAllowed {path : String} (h : isAllowed path = true) :
    Text.fields '/' path ≠ [] := by
  rcases (isAllowed_iff.mp h).1 with ⟨c, rest, hpath, hslash, _⟩
  intro hnil
  refine hslash (Text.fields_eq_nil_iff.mp hnil c ?_)
  rw [hpath]
  exact List.mem_cons_self

/-! ### The join -/

theorem push_eq (place name : String) : push place name = place ++ missingSlash place ++ name := by
  unfold push missingSlash
  split
  · rw [String.append_empty]
  · rfl

-- Behind a name, which does not end with a separator, one is missing.
theorem missingSlash_push (place : String) {name : String} (hne : name ≠ "")
    (hslash : '/' ∉ name.toList) : missingSlash (push place name) = "/" := by
  have hchars : name.toList ≠ [] := fun hc => hne (String.toList_eq_nil_iff.mp hc)
  have hlast : (push place name).toList.getLast? = name.toList.getLast? := by
    rw [push_eq, String.toList_append, List.getLast?_append, List.getLast?_eq_some_getLast hchars,
      Option.some_or]
  refine if_neg (not_or.mpr ⟨fun hempty => ?_, fun hend => ?_⟩)
  · rw [push_eq, String.append_eq_empty_iff] at hempty
    exact hne hempty.2
  · rw [hlast] at hend
    exact hslash (List.mem_of_getLast? hend)

/-- To place names one after another is to join them behind the root. -/
theorem foldl_push {names : List String} (h : ∀ name ∈ names, name ≠ "" ∧ '/' ∉ name.toList)
    (hne : names ≠ []) (root : String) : names.foldl push root = below root names := by
  induction names generalizing root with
  | nil => exact absurd rfl hne
  | cons name rest ih =>
    have hname := h name List.mem_cons_self
    rw [List.foldl_cons]
    by_cases hrest : rest = []
    · rw [hrest, List.foldl_nil, push_eq, below, String.intercalate_singleton]
    · rw [ih (fun other hmem => h other (List.mem_cons_of_mem name hmem)) hrest, below,
        missingSlash_push root hname.1 hname.2, push_eq, below,
        String.intercalate_cons_of_ne_nil hrest]
      simp only [String.append_assoc]

/-- An allowed path has its place where its segments lead, and no other path has
    one. -/
theorem contentPath_eq (root path : String) :
    contentPath root path
      = if isAllowed path then some (below root (Text.fields '/' path)) else none := by
  unfold contentPath
  split
  · rename_i h
    have hsteps : ∀ name ∈ Text.fields '/' path, name ≠ "" ∧ '/' ∉ name.toList :=
      fun name hmem =>
        ⟨(isStep_of_mem_fields h hmem).ne_empty, (isStep_of_mem_fields h hmem).noSlash⟩
    rw [foldl_push hsteps (fields_ne_nil_of_isAllowed h)]
  · rfl

/-- Every path that has a place has it below the root. -/
theorem inside_of_contentPath {root path place : String}
    (h : contentPath root path = some place) : Inside root place := by
  rw [contentPath_eq] at h
  split at h
  · rename_i hallowed
    exact ⟨Text.fields '/' path, fields_ne_nil_of_isAllowed hallowed,
      fun name => isStep_of_mem_fields hallowed, (Option.some.inj h).symm⟩
  · exact absurd h (by simp)

end Content

end StrataShell
