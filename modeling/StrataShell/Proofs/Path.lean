import StrataShell.Path
import StrataShell.Proofs.Text.Fields

/-!
# Paths and Their Segments

The text of a path and the list of its segments, and how the operations on the
text look on the list. `join` appends and `parent` drops the last one, for any
text at all. The converse direction needs the names to be fit for it: a list of
names is given back by its canonical path exactly because no name in it is
empty or holds the separator, which is `IsSegment`.

Between canonical paths and lists of segments there is thus no difference, and
a path that is kept canonical can be reasoned about as a stack of names.

## Main definitions

* `IsSegment`: A name that stands for itself in a path.

## Theorems

* `isSegment_of_mem_segments`: Cutting a path yields nothing else.
* `segments_join`: Joining a name appends its segments.
* `segments_parent`: Going up drops the last segment.
* `segments_ofSegments`: The canonical path of some names has these segments.
* `join_ofSegments`: Joining a name to a canonical path gives a canonical path.
* `parent_ofSegments`: So does going up.
-/

namespace StrataShell

namespace Path

/-- A name that stands for itself in a path: it is not empty and does not hold
    the separator. -/
def IsSegment (name : String) : Prop :=
  name ≠ "" ∧ separator ∉ name.toList

instance (name : String) : Decidable (IsSegment name) :=
  inferInstanceAs (Decidable (_ ∧ _))

theorem singleton_separator : String.singleton separator = "/" := rfl

theorem segments_root : segments root = [] := rfl

/-- What a path is cut into are segments. -/
theorem isSegment_of_mem_segments {path name : String} (h : name ∈ segments path) :
    IsSegment name :=
  ⟨Text.ne_empty_of_mem_fields h, Text.notMem_of_mem_fields h⟩

theorem segments_of_isSegment {name : String} (h : IsSegment name) : segments name = [name] :=
  Text.fields_singleton h.1 h.2

-- No other name is its only segment.
theorem segments_eq_singleton_iff {name : String} : segments name = [name] ↔ IsSegment name := by
  constructor
  · intro h
    exact isSegment_of_mem_segments (h ▸ List.mem_singleton_self name)
  · exact segments_of_isSegment

/-- A separator divides the segments of a path. -/
theorem segments_append (a b : String) : segments (a ++ "/" ++ b) = segments a ++ segments b := by
  rw [← singleton_separator]
  exact Text.fields_append separator a b

/-- A separator at the front of a path belongs to no segment. -/
theorem segments_slash (path : String) : segments ("/" ++ path) = segments path := by
  have h := segments_append "" path
  rw [String.empty_append] at h
  rw [h]
  rfl

/-- Joining a name appends its segments. -/
theorem segments_join (base name : String) :
    segments (join base name) = segments base ++ segments name := by
  by_cases h : base = root
  · rw [join, if_pos h, segments_slash, h, segments_root, List.nil_append]
  · rw [join, if_neg h, segments_append]

/-- The canonical path of some names has these names for its segments. -/
theorem segments_ofSegments {names : List String} (h : ∀ name ∈ names, IsSegment name) :
    segments (ofSegments names) = names := by
  rw [ofSegments, segments_slash, ← singleton_separator]
  exact Text.fields_intercalate h

theorem ofSegments_nil : ofSegments [] = root := by
  rw [ofSegments, String.intercalate_nil, String.append_empty]
  rfl

/-- Only the root has a canonical path without names. -/
theorem ofSegments_eq_root_iff {names : List String} (h : ∀ name ∈ names, IsSegment name) :
    ofSegments names = root ↔ names = [] := by
  constructor
  · intro hroot
    rw [← segments_ofSegments h, hroot, segments_root]
  · intro hnil
    rw [hnil, ofSegments_nil]

/-- Joining a name to a canonical path gives the canonical path with that name
    at its end. -/
theorem join_ofSegments {names : List String} (h : ∀ name ∈ names, IsSegment name)
    (name : String) : join (ofSegments names) name = ofSegments (names ++ [name]) := by
  by_cases hnil : names = []
  · -- The root is itself a separator, and `join` does not write a second one.
    rw [join, if_pos ((ofSegments_eq_root_iff h).mpr hnil), hnil, List.nil_append, ofSegments,
      String.intercalate_singleton]
  · have hne : ¬ ofSegments names = root := fun hc => hnil ((ofSegments_eq_root_iff h).mp hc)
    rw [join, if_neg hne, ofSegments, ofSegments,
      String.intercalate_append_of_ne_nil hnil (List.cons_ne_nil name []),
      String.intercalate_singleton, String.append_assoc, String.append_assoc,
      String.append_assoc]

/-- The path above any path lacks its last segment. -/
theorem segments_parent (path : String) : segments (parent path) = (segments path).dropLast := by
  refine segments_ofSegments (fun name hmem => ?_)
  exact isSegment_of_mem_segments (List.dropLast_subset _ hmem)

/-- The path above a canonical path is canonical. -/
theorem parent_ofSegments {names : List String} (h : ∀ name ∈ names, IsSegment name) :
    parent (ofSegments names) = ofSegments names.dropLast := by
  rw [parent, segments_ofSegments h]

end Path

end StrataShell
