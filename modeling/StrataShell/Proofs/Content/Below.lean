import StrataShell.Proofs.Content.Address

/-!
# The Places Below a Root

An allowed path has its place in closed form: the root as it is, a slash where
one is missing, and the segments of the path with single slashes between them.
This module reads off what a user of the places relies on.

No place leads out again. Whatever was appended is cut, at the slash or at
either kind of slash, there is no piece that stays, goes up or names a volume.
No place is the root, and no two paths share one unless they have the same
segments. And places can be taken in two steps: what stands below the place of
one path is below the root at the place of both paths joined.

## Theorems

* `isAllowed_append`: Two allowed paths can be joined.
* `below_injective`: Different names lead to different places.
* `contentPath_append`: The place of a joined path can be taken in two steps.
* `isPlainPiece_of_mem_suffix`: What is appended to a root is plain.
* `contentPath_closed_form`: The place of a path, and what it is good for.
-/

namespace StrataShell

namespace Content

variable {root path other : String} {names : List String}

theorem isPlainPiece_iff {piece : String} :
    isPlainPiece piece = true ↔ piece ≠ "." ∧ piece ≠ ".." ∧ ':' ∉ piece.toList := by
  simp [isPlainPiece, and_left_comm, and_assoc]

/-! ### Two paths, joined -/

theorem fields_join (path other : String) :
    Text.fields '/' (path ++ "/" ++ other) = Text.fields '/' path ++ Text.fields '/' other :=
  Text.fields_append '/' path other

theorem strictPieces_join (path other : String) :
    strictPieces (path ++ "/" ++ other) = strictPieces path ++ strictPieces other := by
  have hcut : Text.pieces '/' (path ++ "/" ++ other)
      = Text.pieces '/' path ++ Text.pieces '/' other := Text.pieces_append '/' path other
  rw [strictPieces, hcut, List.flatMap_append]
  rfl

/-- Two allowed paths make an allowed path. -/
theorem isAllowed_append (h : isAllowed path = true) (hother : isAllowed other = true) :
    isAllowed (path ++ "/" ++ other) = true := by
  rw [isAllowed_iff] at h hother ⊢
  rcases h with ⟨⟨c, rest, hpath, hslash, hback⟩, hpieces⟩
  refine ⟨⟨c, rest ++ '/' :: other.toList, ?_, hslash, hback⟩, fun piece hmem => ?_⟩
  · rw [String.toList_append, String.toList_append, hpath]
    simp
  · rw [strictPieces_join, List.mem_append] at hmem
    exact hmem.elim (hpieces piece) (hother.2 piece)

/-- The place of a joined path is where the second path leads from the place of
    the first. -/
theorem contentPath_append (h : isAllowed path = true) (hother : isAllowed other = true)
    (root : String) :
    contentPath root (path ++ "/" ++ other)
      = (contentPath root path).bind (fun place => contentPath place other) := by
  rw [contentPath, if_pos (isAllowed_append h hother), contentPath, if_pos h, Option.bind_some,
    contentPath, if_pos hother, fields_join, List.foldl_append]

/-! ### What is appended to a root -/

theorem isStep_fields (h : isAllowed path = true) :
    ∀ name ∈ Text.fields '/' path, name ≠ "" ∧ '/' ∉ name.toList :=
  fun _ hmem => ⟨(isStep_of_mem_fields h hmem).ne_empty, (isStep_of_mem_fields h hmem).noSlash⟩

/-- Different names lead to different places. -/
theorem below_injective {names others : List String}
    (hnames : ∀ name ∈ names, name ≠ "" ∧ '/' ∉ name.toList)
    (hothers : ∀ name ∈ others, name ≠ "" ∧ '/' ∉ name.toList)
    (h : below root names = below root others) : names = others := by
  have hjoined : String.intercalate "/" names = String.intercalate "/" others := by
    rw [below, below] at h
    exact String.append_right_inj _ |>.mp h
  have hcut := congrArg (Text.fields '/') hjoined
  rw [show "/" = String.singleton '/' from rfl, Text.fields_intercalate hnames,
    Text.fields_intercalate hothers] at hcut
  exact hcut

-- A slash that was missing adds an empty piece in front of the names.
theorem mem_pieces_suffix {piece : String} (hnames : ∀ name ∈ names, '/' ∉ name.toList)
    (hne : names ≠ [])
    (h : piece ∈ Text.pieces '/' (missingSlash root ++ String.intercalate "/" names)) :
    piece = "" ∨ piece ∈ names := by
  have hcut : Text.pieces '/' (String.intercalate "/" names) = names :=
    Text.pieces_intercalate hnames hne
  rw [missingSlash] at h
  split at h
  · rw [String.empty_append, hcut] at h
    exact Or.inr h
  · have hslash : Text.pieces '/' ("/" ++ String.intercalate "/" names) = "" :: names := by
      have hfront := Text.pieces_append '/' "" (String.intercalate "/" names)
      rw [String.empty_append, hcut] at hfront
      exact hfront
    rw [hslash] at h
    exact List.mem_cons.mp h

/-- What is appended to a root for an allowed path is plain, however it is
    cut. -/
theorem isPlainPiece_of_mem_suffix (h : isAllowed path = true) {piece : String}
    (hpiece : piece ∈ (Text.pieces '/' (missingSlash root
      ++ String.intercalate "/" (Text.fields '/' path))).flatMap (Text.pieces '\\')) :
    isPlainPiece piece = true := by
  rcases List.mem_flatMap.mp hpiece with ⟨name, hname, hmem⟩
  by_cases hempty : piece = ""
  · rw [hempty]
    decide
  · -- A piece that is not empty is one that the check has seen.
    have hfield : piece ∈ Text.fields '\\' name :=
      List.mem_filter.mpr ⟨hmem, decide_eq_true hempty⟩
    rcases mem_pieces_suffix (fun name hmem => (isStep_fields h name hmem).2)
      (fields_ne_nil_of_isAllowed h) hname with hnil | hstep
    · rw [hnil, Text.fields_empty] at hfield
      exact absurd hfield List.not_mem_nil
    · exact (isAllowed_iff.mp h).2 piece
        (List.mem_flatMap.mpr ⟨name, (List.mem_filter.mp hstep).1, hfield⟩)

/-- The place of a path below a root, in closed form. A path has one exactly if
    it is allowed, and it is the root with a slash where one is missing and the
    segments of the path, of which there is one at least; so it is not the root.
    What was appended has no piece that is a dot name or holds a colon, whether
    it is cut at the slash or at both kinds of slash. Two allowed paths have one
    place exactly if they have the same segments. Joined by a slash they are
    allowed, and the place is where the second leads from the place of the
    first. -/
theorem contentPath_closed_form (root path : String) :
    let names := Text.fields '/' path
    let suffix := missingSlash root ++ String.intercalate "/" names
    let plain := fun piece : String => piece ≠ "." ∧ piece ≠ ".." ∧ ':' ∉ piece.toList
    (contentPath root path).isSome = isAllowed path
      ∧ (isAllowed path = true →
        contentPath root path = some (root ++ suffix) ∧ names ≠ [] ∧ root ++ suffix ≠ root
          ∧ (∀ piece ∈ Text.pieces '/' suffix, plain piece)
          ∧ ∀ piece ∈ (Text.pieces '/' suffix).flatMap (Text.pieces '\\'), plain piece)
      ∧ ∀ other, isAllowed path = true → isAllowed other = true →
        (contentPath root path = contentPath root other ↔ names = Text.fields '/' other)
          ∧ isAllowed (path ++ "/" ++ other) = true
          ∧ contentPath root (path ++ "/" ++ other)
            = (contentPath root path).bind (fun place => contentPath place other) := by
  intro names suffix plain
  refine ⟨contentPath_isSome root path, fun h => ?_, fun other h hother => ?_⟩
  · have hplace : contentPath root path = some (root ++ suffix) := by
      rw [contentPath_eq, if_pos h, below, String.append_assoc]
    have hne : names ≠ [] := fields_ne_nil_of_isAllowed h
    refine ⟨hplace, hne, fun hroot => ?_, fun piece hmem => ?_, fun piece hmem => ?_⟩
    · -- Nothing but the empty text would leave the root as it is.
      have hempty : String.intercalate "/" names = "" := by
        have hsuffix := String.append_eq_left_iff.mp hroot
        exact (String.append_eq_empty_iff.mp hsuffix).2
      have hcut := Text.fields_intercalate (isStep_fields h)
      rw [show String.singleton '/' = "/" from rfl, hempty, Text.fields_empty] at hcut
      exact hne hcut.symm
    · rcases mem_pieces_suffix (fun name hname => (isStep_fields h name hname).2) hne hmem with
        hempty | hname
      · rw [hempty]
        decide
      · have hstep := isStep_of_mem_fields h hname
        exact ⟨hstep.ne_here, hstep.ne_up, hstep.noColon⟩
    · exact isPlainPiece_iff.mp (isPlainPiece_of_mem_suffix h hmem)
  · refine ⟨?same, isAllowed_append h hother, contentPath_append h hother root⟩
    case same =>
      rw [contentPath_eq, contentPath_eq, if_pos h, if_pos hother, Option.some.injEq]
      constructor
      · exact below_injective (isStep_fields h) (isStep_fields hother)
      · exact congrArg (below root)

end Content

end StrataShell
