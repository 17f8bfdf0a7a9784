import StrataShell.Dir
import StrataShell.Proofs.Path
import StrataShell.Proofs.Text.Layout

/-!
# Any Text as a Path

Nothing forbids a path to be written with a doubled separator, with one at its
end or with none at its front, and each operation treats these in a way of its
own: `join` looks at nothing but whether the text is the root, `parent` writes
the text anew, and walking a tree skips whatever is empty. The operations agree
nevertheless, because each of them is an operation on the segments. This module
says so for every text, canonical or not.

The canonical form of a path is the one text among those with its segments that
`ofSegments` gives back. Going up always ends there, so a step down by a name
and the step up again put a path into canonical form, and leave it as it is if
it was canonical.

That a tree is walked by the segments alone has a converse. Two texts with
different segments are told apart by some tree, namely the one that has a single
way through it and nothing beside that way.

## Main definitions

* `Path.IsCanonical`: The root, or segments with one separator before each.
* `Path.canonical`: The canonical path with the segments of a given one.
* `Dir.onlyWay`: The tree with a single way through it.

## Theorems

* `eq_canonical_iff`: The canonical form is the only canonical path with these
  segments.
* `parent_join`: A step down and up again leads to the canonical form.
* `resolve_join`: A joined name is looked up where the path leads.
* `segments_eq_iff_resolve_eq`: Only the segments of a path count in a tree.
* `operations_by_segments`: The operations on a text are operations on its
  segments.
-/

namespace StrataShell

namespace Path

variable {path name : String} {names : List String}

/-- A path in canonical form: the root, or one separator before each of some
    segments. -/
def IsCanonical (path : String) : Prop :=
  path = root
    ∨ ∃ names, names ≠ [] ∧ (∀ name ∈ names, IsSegment name)
      ∧ path = "/" ++ String.intercalate "/" names

/-- The canonical path with the segments of a given path. -/
def canonical (path : String) : String :=
  ofSegments (segments path)

theorem isCanonical_ofSegments (h : ∀ name ∈ names, IsSegment name) :
    IsCanonical (ofSegments names) := by
  by_cases hnil : names = []
  · exact Or.inl (hnil ▸ ofSegments_nil)
  · exact Or.inr ⟨names, hnil, h, rfl⟩

theorem isCanonical_canonical (path : String) : IsCanonical (canonical path) :=
  isCanonical_ofSegments (fun _ => isSegment_of_mem_segments)

theorem segments_canonical (path : String) : segments (canonical path) = segments path :=
  segments_ofSegments (fun _ => isSegment_of_mem_segments)

/-- A canonical path is its own canonical form. -/
theorem IsCanonical.canonical_eq (h : IsCanonical path) : canonical path = path := by
  rcases h with hroot | ⟨names, _, hnames, hpath⟩
  · rw [hroot, canonical, segments_root, ofSegments_nil]
  · rw [hpath, ← ofSegments, canonical, segments_ofSegments hnames]

/-- The canonical form of a path is the only canonical path with its
    segments. -/
theorem eq_canonical_iff {other : String} :
    other = canonical path ↔ IsCanonical other ∧ segments other = segments path := by
  constructor
  · intro h
    rw [h]
    exact ⟨isCanonical_canonical path, segments_canonical path⟩
  · rintro ⟨hcanonical, hsegments⟩
    rw [← hcanonical.canonical_eq, canonical, hsegments, canonical]

theorem IsCanonical.ne_empty (h : IsCanonical path) : path ≠ "" := by
  rcases h with hroot | ⟨names, _, _, hpath⟩
  · rw [hroot]
    decide
  · intro hempty
    rw [hpath, String.append_eq_empty_iff] at hempty
    exact absurd hempty.1 (by decide)

-- A joined segment ends the path, so the path ends as the segment does.
theorem getLast?_join_ne (h : IsSegment name) (path : String) :
    (join path name).toList.getLast? ≠ some separator := by
  have hchars : name.toList ≠ [] := fun hc => h.1 (String.toList_eq_nil_iff.mp hc)
  have hend : (join path name).toList.getLast? = name.toList.getLast? := by
    rw [join]
    split <;> rw [String.toList_append, List.getLast?_append,
      List.getLast?_eq_some_getLast hchars, Option.some_or]
  rw [hend]
  exact fun hsep => h.2 (List.mem_of_getLast? hsep)

/-- No canonical path but the root ends with a separator. -/
theorem IsCanonical.getLast?_ne (h : IsCanonical path) (hroot : path ≠ root) :
    path.toList.getLast? ≠ some separator := by
  rcases h with hpath | ⟨names, hne, hnames, hpath⟩
  · exact absurd hpath hroot
  · rcases List.eq_nil_or_concat names with hnil | ⟨first, last, hconcat⟩
    · exact absurd hnil hne
    · rw [List.concat_eq_append] at hconcat
      rw [hconcat, List.forall_mem_append, List.forall_mem_singleton] at hnames
      have hjoin : path = join (ofSegments first) last := by
        rw [join_ofSegments hnames.1, ← hconcat]
        exact hpath
      rw [hjoin]
      exact getLast?_join_ne hnames.2 _

/-- The path above any path is canonical. -/
theorem isCanonical_parent (path : String) : IsCanonical (parent path) :=
  isCanonical_ofSegments (fun _ hmem => isSegment_of_mem_segments (List.dropLast_subset _ hmem))

/-- A step down by a segment and the step up again lead to the canonical form. -/
theorem parent_join (h : IsSegment name) (path : String) :
    parent (join path name) = canonical path := by
  rw [parent, segments_join, segments_of_isSegment h, List.dropLast_concat, canonical]

-- A text without segments has nothing but separators in it.
theorem isRoot_iff_forall_eq : isRoot path = true ↔ ∀ c ∈ path.toList, c = separator := by
  rw [isRoot_iff, segments, Text.fields_eq_nil_iff]

end Path

namespace Dir

variable {F : Type} {place : List String}

/-- The tree in which a list of names leads on and no other name does. -/
def onlyWay : List String → Dir F
  | [] => empty
  | name :: rest => { dirs := [(name, onlyWay rest)] }

/-- The single way through such a tree ends at an empty directory, and no other
    place in it is empty. -/
theorem resolve_onlyWay_eq_empty_iff {names : List String} :
    (onlyWay names).resolve place = some (empty : Dir F) ↔ place = names := by
  induction names generalizing place with
  | nil =>
    cases place with
    | nil => exact iff_of_true rfl rfl
    | cons name rest => simp [onlyWay, empty, NameMap.get?]
  | cons name rest ih =>
    cases place with
    | nil => simp [onlyWay, empty]
    | cons other later =>
      rw [onlyWay, resolve_cons, NameMap.get?]
      by_cases h : name = other
      · rw [if_pos h, Option.bind_some, ih, h, List.cons.injEq]
        exact (and_iff_right rfl).symm
      · rw [if_neg h, NameMap.get?, Option.bind_none, List.cons.injEq]
        exact iff_of_false (by simp) (fun hc => h hc.1.symm)

-- Two places that no tree tells apart are one.
theorem eq_of_forall_resolve_eq {other : List String}
    (h : ∀ d : Dir F, d.resolve other = d.resolve place) : other = place := by
  have hway : (onlyWay place).resolve other = some (empty : Dir F) := by
    rw [h]
    exact resolve_onlyWay_eq_empty_iff.mpr rfl
  exact resolve_onlyWay_eq_empty_iff.mp hway

end Dir

namespace Path

variable {F : Type} {path name : String}

/-- What a path leads to is settled by its segments, and by no fewer of them. -/
theorem segments_eq_iff_resolve_eq {other : String} :
    segments other = segments path
      ↔ ∀ d : Dir F, d.resolve (segments other) = d.resolve (segments path) := by
  constructor
  · intro h d
    rw [h]
  · exact Dir.eq_of_forall_resolve_eq

/-- A joined segment is looked up in the directory that the path leads to. -/
theorem resolve_join (h : IsSegment name) (path : String) (d : Dir F) :
    d.resolve (segments (join path name))
      = (d.resolve (segments path)).bind (fun sub => NameMap.get? name sub.dirs) := by
  rw [segments_join, segments_of_isSegment h, Dir.resolve_append]
  refine Option.bind_congr (fun sub _ => ?_)
  rw [Dir.resolve_cons]
  exact Option.bind_fun_some _

/-- The operations on any text are operations on its segments, which are what is
    laid out in it between separators. Joining a name appends the segments of the
    name, going up drops the last one, and the root is every text without
    segments, that is, of separators only. The path above is always canonical,
    and it is the canonical form of a path when a segment was joined to that path
    before. In a tree two texts lead to the same in every case exactly if they
    have the same segments; the root leads to the tree itself, and a joined
    segment to the child of that name, if there is one. -/
theorem operations_by_segments (path name : String) (d : Dir F) :
    (∀ names, Text.Laid separator names path ↔ names = segments path)
      ∧ segments (join path name) = segments path ++ segments name
      ∧ segments (parent path) = (segments path).dropLast
      ∧ (isRoot path = true ↔ segments path = [])
      ∧ (isRoot path = true ↔ ∀ c ∈ path.toList, c = separator)
      ∧ (IsCanonical (parent path) ∧ parent path ≠ ""
        ∧ (parent path ≠ root → (parent path).toList.getLast? ≠ some separator))
      ∧ (∀ other, other = canonical path ↔ IsCanonical other ∧ segments other = segments path)
      ∧ (IsSegment name → parent (join path name) = canonical path
        ∧ (IsCanonical path → parent (join path name) = path))
      ∧ (∀ other, segments other = segments path
          ↔ ∀ tree : Dir F, tree.resolve (segments other) = tree.resolve (segments path))
      ∧ (isRoot path = true → d.resolve (segments path) = some d)
      ∧ (IsSegment name → d.resolve (segments (join path name))
          = (d.resolve (segments path)).bind (fun sub => NameMap.get? name sub.dirs)) := by
  have habove : IsCanonical (parent path) := isCanonical_parent path
  refine ⟨fun names => Text.laid_iff, segments_join path name, segments_parent path, isRoot_iff,
    isRoot_iff_forall_eq, ⟨habove, habove.ne_empty, habove.getLast?_ne⟩,
    fun other => eq_canonical_iff, fun h => ⟨parent_join h path, fun hpath => ?back⟩,
    fun other => segments_eq_iff_resolve_eq, fun h => ?root, fun h => resolve_join h path d⟩
  case back => rw [parent_join h, hpath.canonical_eq]
  case root => rw [isRoot_iff.mp h, Dir.resolve_nil]

-- No separator in front, two in between and two behind.
example : parent (join "a//b//" "c") = "/a/b" ∧ parent "a//b//" = "/a" := by decide

end Path

end StrataShell
