import StrataShell.Text.Fields

/-!
# Cutting What Was Joined

How cutting behaves on text that was put together. One equation carries the
rest: a separator between two texts cuts the whole into the pieces of the first
and the pieces of the second, whatever the two are. A text without the
separator is a single piece, and so the names that were joined by a separator
come back when the text is cut, provided none of them is empty or contains it.

The proviso is met by everything that a cut ever yields. The fields of a text
are therefore exactly the lists that survive a round trip.

## Theorems

* `pieces_append`: A separator cuts a text into two independent parts.
* `fields_append`: The same for the pieces that are not empty.
* `fields_singleton`: A text without the separator is its only field.
* `notMem_of_mem_pieces`, `notMem_of_mem_fields`: No piece and no field contains
  the separator.
* `exists_mem_fields`: Every other character is in some field.
* `intercalate_pieces`: The pieces of a text make it up.
* `pieces_intercalate`, `fields_intercalate`: Cutting gives back what was joined.
* `fields_eq_nil_iff`: Only a text of separators has no field.
-/

namespace StrataShell

namespace Text

/-- A separator cuts a text into the pieces before it and the pieces behind
    it. -/
theorem pieces_append (sep : Char) (a b : String) :
    pieces sep (a ++ String.singleton sep ++ b) = pieces sep a ++ pieces sep b := by
  have h : (a ++ String.singleton sep ++ b).toList = a.toList ++ sep :: b.toList := by
    simp only [String.toList_append, String.toList_singleton, List.append_assoc,
      List.cons_append, List.nil_append]
  simp only [pieces, h, List.splitOn_append_cons_self, List.map_append]

/-- A separator cuts a text into the fields before it and the fields behind
    it. -/
theorem fields_append (sep : Char) (a b : String) :
    fields sep (a ++ String.singleton sep ++ b) = fields sep a ++ fields sep b := by
  simp only [fields, pieces_append, List.filter_append]

/-- A text without the separator is a single piece. -/
theorem pieces_singleton {sep : Char} {s : String} (h : sep ∉ s.toList) : pieces sep s = [s] := by
  simp only [pieces, List.splitOn_eq_singleton h, List.map_cons, List.map_nil, String.ofList_toList]

theorem fields_singleton {sep : Char} {s : String} (hne : s ≠ "") (h : sep ∉ s.toList) :
    fields sep s = [s] := by
  have hs : decide (s ≠ "") = true := decide_eq_true hne
  simp only [fields, pieces_singleton h, List.filter_cons, hs, if_true, List.filter_nil]

/-- The characters between two separators are not separators. -/
theorem notMem_of_mem_splitOn {sep : Char} {cs piece : List Char} (h : piece ∈ cs.splitOn sep) :
    sep ∉ piece := by
  induction cs generalizing piece with
  | nil =>
    rw [List.splitOn_nil, List.mem_singleton] at h
    rw [h]
    exact List.not_mem_nil
  | cons c rest ih =>
    rw [List.splitOn_cons_eq_if_modifyHead] at h
    rcases List.exists_cons_of_ne_nil (List.splitOn_ne_nil sep rest) with ⟨first, later, hcut⟩
    rw [hcut] at h ih
    by_cases hc : c = sep
    · -- A separator opens a new piece, so the pieces behind it are those of the rest.
      rw [if_pos (beq_iff_eq.mpr hc)] at h
      rcases List.mem_cons.mp h with hp | hp
      · rw [hp]
        exact List.not_mem_nil
      · exact ih hp
    · -- Any other character goes to the front of the first piece.
      rw [if_neg (fun hb => hc (beq_iff_eq.mp hb)), List.modifyHead_cons] at h
      rcases List.mem_cons.mp h with hp | hp
      · rw [hp, List.mem_cons]
        exact fun hm => hm.elim (fun he => hc he.symm) (ih List.mem_cons_self)
      · exact ih (List.mem_cons_of_mem _ hp)

-- So a piece does not hold the separator, and a field is a piece.
theorem notMem_of_mem_pieces {sep : Char} {s piece : String} (h : piece ∈ pieces sep s) :
    sep ∉ piece.toList := by
  rcases List.mem_map.mp h with ⟨chars, hchars, hpiece⟩
  rw [← hpiece, String.toList_ofList]
  exact notMem_of_mem_splitOn hchars

theorem notMem_of_mem_fields {sep : Char} {s f : String} (h : f ∈ fields sep s) :
    sep ∉ f.toList :=
  notMem_of_mem_pieces (List.mem_filter.mp h).1

-- What is no separator is cut off with its neighbours and not lost.
theorem exists_mem_splitOn {sep c : Char} {cs : List Char} (h : c ∈ cs) (hc : c ≠ sep) :
    ∃ piece ∈ cs.splitOn sep, c ∈ piece := by
  induction cs with
  | nil => exact absurd h List.not_mem_nil
  | cons d rest ih =>
    rw [List.splitOn_cons_eq_if_modifyHead]
    by_cases hd : d = sep
    · rw [if_pos (beq_iff_eq.mpr hd)]
      have hrest : c ∈ rest := (List.mem_cons.mp h).resolve_left (fun he => hc (he.trans hd))
      rcases ih hrest with ⟨piece, hmem, hpiece⟩
      exact ⟨piece, List.mem_cons_of_mem _ hmem, hpiece⟩
    · rcases List.exists_cons_of_ne_nil (List.splitOn_ne_nil sep rest) with ⟨first, later, hcut⟩
      rw [if_neg (fun hb => hd (beq_iff_eq.mp hb)), hcut, List.modifyHead_cons]
      rcases List.mem_cons.mp h with hhead | hrest
      · exact ⟨d :: first, List.mem_cons_self, hhead ▸ List.mem_cons_self⟩
      · rcases ih hrest with ⟨piece, hmem, hpiece⟩
        rw [hcut] at hmem
        rcases List.mem_cons.mp hmem with hfirst | hlater
        · exact ⟨d :: first, List.mem_cons_self, List.mem_cons_of_mem d (hfirst ▸ hpiece)⟩
        · exact ⟨piece, List.mem_cons_of_mem _ hlater, hpiece⟩

/-- Every character but the separator is in some field. -/
theorem exists_mem_fields {sep c : Char} {s : String} (h : c ∈ s.toList) (hc : c ≠ sep) :
    ∃ f ∈ fields sep s, c ∈ f.toList := by
  rcases exists_mem_splitOn h hc with ⟨piece, hmem, hpiece⟩
  have hchars : c ∈ (String.ofList piece).toList := by
    rw [String.toList_ofList]
    exact hpiece
  have hne : String.ofList piece ≠ "" := by
    intro hempty
    rw [hempty] at hchars
    exact absurd hchars List.not_mem_nil
  exact ⟨_, List.mem_filter.mpr ⟨List.mem_map_of_mem hmem, decide_eq_true hne⟩, hchars⟩

/-- What was cut is joined again by the separator. -/
theorem intercalate_pieces (sep : Char) (s : String) :
    String.intercalate (String.singleton sep) (pieces sep s) = s := by
  have hback : String.toList ∘ String.ofList = id := funext (fun _ => String.toList_ofList)
  rw [← String.toList_inj, String.toList_intercalate, String.toList_singleton, pieces,
    List.map_map, hback, List.map_id, List.intercalate_splitOn]

/-- Cutting gives back the pieces that were joined, if none of them contains the
    separator. -/
theorem pieces_intercalate {sep : Char} {names : List String}
    (h : ∀ name ∈ names, sep ∉ name.toList) (hne : names ≠ []) :
    pieces sep (String.intercalate (String.singleton sep) names) = names := by
  have hback : String.ofList ∘ String.toList = id := funext (fun _ => String.ofList_toList)
  have hsplit : ([sep].intercalate (names.map String.toList)).splitOn sep
      = names.map String.toList := by
    refine List.splitOn_intercalate sep (fun piece hmem => ?_) (fun hnil => ?_)
    · rcases List.mem_map.mp hmem with ⟨name, hname, hpiece⟩
      exact hpiece ▸ h name hname
    · exact hne (List.map_eq_nil_iff.mp hnil)
  rw [pieces, String.toList_intercalate, String.toList_singleton, hsplit, List.map_map, hback,
    List.map_id]

/-- Cutting gives back the names that were joined, if none of them is empty or
    contains the separator. -/
theorem fields_intercalate {sep : Char} {names : List String}
    (h : ∀ name ∈ names, name ≠ "" ∧ sep ∉ name.toList) :
    fields sep (String.intercalate (String.singleton sep) names) = names := by
  by_cases hnil : names = []
  · rw [hnil, String.intercalate_nil, fields_empty]
  · rw [fields, pieces_intercalate (fun name hname => (h name hname).2) hnil,
      List.filter_eq_self]
    exact fun name hname => decide_eq_true (h name hname).1

-- All pieces are empty where there is nothing but separators.
theorem forall_mem_splitOn_eq_nil_iff {sep : Char} {cs : List Char} :
    (∀ piece ∈ cs.splitOn sep, piece = []) ↔ ∀ c ∈ cs, c = sep := by
  induction cs with
  | nil =>
    rw [List.splitOn_nil, List.forall_mem_singleton]
    exact ⟨fun _ => List.forall_mem_nil _, fun _ => rfl⟩
  | cons c rest ih =>
    rw [List.splitOn_cons_eq_if_modifyHead, List.forall_mem_cons]
    by_cases hc : c = sep
    · rw [if_pos (beq_iff_eq.mpr hc), List.forall_mem_cons, ih]
      exact and_congr ⟨fun _ => hc, fun _ => rfl⟩ Iff.rfl
    · -- The character stands in the first piece, which is then not empty.
      rcases List.exists_cons_of_ne_nil (List.splitOn_ne_nil sep rest) with ⟨first, later, hcut⟩
      rw [if_neg (fun hb => hc (beq_iff_eq.mp hb)), hcut, List.modifyHead_cons, List.forall_mem_cons]
      exact ⟨fun h => absurd h.1 (List.cons_ne_nil c first), fun h => absurd h.1 hc⟩

/-- Only a text of separators has no field. -/
theorem fields_eq_nil_iff {sep : Char} {s : String} :
    fields sep s = [] ↔ ∀ c ∈ s.toList, c = sep := by
  rw [← forall_mem_splitOn_eq_nil_iff, fields, List.filter_eq_nil_iff, pieces, List.forall_mem_map]
  refine forall₂_congr (fun piece _ => ?_)
  rw [decide_eq_true_eq, ne_eq, Decidable.not_not]
  exact String.ofList_eq_empty_iff

end Text

end StrataShell
