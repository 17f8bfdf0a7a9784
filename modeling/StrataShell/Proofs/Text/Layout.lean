import StrataShell.Proofs.Text.Fields

/-!
# How Fields Lie in a Text

What a cut yields is here described without cutting. Some fields are laid out in
a text if the text is these fields in their order, with at least one separator
between two of them and any number before the first and behind the last.

No text can be read in two ways. Where a field begins and ends is settled by the
separators around it, so the fields that are laid out in a text are those that a
cut finds, and there are always some. Whatever is to be known of fields can then
be shown along the layout, which is how a field is found in its text again: it
begins with the text or behind a separator.

## Main definitions

* `gap`: A text of separators.
* `Laid`: Some fields are laid out in a text.

## Theorems

* `laid_iff`: The fields of a text are the only ones that are laid out in it.
* `Laid.exists_eq_append`: A field begins a text or stands behind a separator.
* `exists_head_mem_fields_iff`: How some field comes to begin with a character.
-/

namespace StrataShell

namespace Text

/-- A text of separators only. -/
def gap (sep : Char) (count : Nat) : String :=
  String.ofList (List.replicate count sep)

/-- Some fields are laid out in a text, with separators around them. -/
inductive Laid (sep : Char) : List String → String → Prop
  /-- No field, but there may be separators. -/
  | blank (count : Nat) : Laid sep [] (gap sep count)
  /-- A field that ends the text. -/
  | last (count : Nat) {field : String} (hne : field ≠ "") (hsep : sep ∉ field.toList) :
      Laid sep [field] (gap sep count ++ field)
  /-- A field with a separator behind it, and then the others. -/
  | next (count : Nat) {field : String} {others : List String} {rest : String}
      (hne : field ≠ "") (hsep : sep ∉ field.toList) (hrest : Laid sep others rest) :
      Laid sep (field :: others) (gap sep count ++ field ++ String.singleton sep ++ rest)

variable {sep c : Char} {names : List String} {s f : String}

theorem gap_zero (sep : Char) : gap sep 0 = "" := rfl

theorem gap_succ (sep : Char) (count : Nat) :
    gap sep (count + 1) = String.singleton sep ++ gap sep count := by
  rw [gap, gap, List.replicate_succ, String.singleton_eq_ofList, ← String.ofList_append]
  rfl

/-- Separators before a text belong to no field. -/
theorem fields_gap_append (sep : Char) (count : Nat) (s : String) :
    fields sep (gap sep count ++ s) = fields sep s := by
  induction count with
  | zero => rw [gap_zero, String.empty_append]
  | succ count ih =>
    have hcut := fields_append sep "" (gap sep count ++ s)
    rw [String.empty_append, fields_empty, List.nil_append, ih] at hcut
    rw [gap_succ, String.append_assoc, hcut]

-- What is laid out is what a cut finds.
theorem Laid.eq_fields (h : Laid sep names s) : names = fields sep s := by
  induction h with
  | blank count =>
    have hcut := fields_gap_append sep count ""
    rw [String.append_empty] at hcut
    rw [hcut, fields_empty]
  | last count hne hsep => rw [fields_gap_append, fields_singleton hne hsep]
  | next count hne hsep hrest ih =>
    rw [fields_append, fields_gap_append, fields_singleton hne hsep, ← ih]
    rfl

-- One more separator at the front of a text changes nothing.
theorem Laid.separate (h : Laid sep names s) :
    Laid sep names (String.singleton sep ++ s) := by
  cases h with
  | blank count =>
    rw [← gap_succ]
    exact Laid.blank (count + 1)
  | last count hne hsep =>
    rw [← String.append_assoc, ← gap_succ]
    exact Laid.last (count + 1) hne hsep
  | next count hne hsep hrest =>
    rw [← String.append_assoc, ← String.append_assoc, ← String.append_assoc, ← gap_succ]
    exact Laid.next (count + 1) hne hsep hrest

/-- In a text that was joined, the names that are not empty are laid out. -/
theorem laid_intercalate (h : ∀ name ∈ names, sep ∉ name.toList) :
    Laid sep (names.filter (fun name => name ≠ ""))
      (String.intercalate (String.singleton sep) names) := by
  induction names with
  | nil => exact Laid.blank 0
  | cons name rest ih =>
    have hname := h name List.mem_cons_self
    have hrest := ih (fun other ho => h other (List.mem_cons_of_mem name ho))
    by_cases hempty : name = ""
    · -- An empty name is no field, but a separator may follow it.
      rw [List.filter_cons, if_neg (by simp [hempty]), hempty]
      by_cases hnil : rest = []
      · rw [hnil, String.intercalate_singleton]
        exact Laid.blank 0
      · rw [String.intercalate_cons_of_ne_nil hnil, String.empty_append]
        exact hrest.separate
    · rw [List.filter_cons, if_pos (decide_eq_true hempty)]
      by_cases hnil : rest = []
      · rw [hnil, String.intercalate_singleton]
        have hlast := Laid.last 0 hempty hname
        rw [gap_zero, String.empty_append] at hlast
        exact hlast
      · rw [String.intercalate_cons_of_ne_nil hnil]
        have hnext := Laid.next 0 hempty hname hrest
        rw [gap_zero, String.empty_append] at hnext
        exact hnext

/-- The fields of a text are laid out in it. -/
theorem laid_fields (sep : Char) (s : String) : Laid sep (fields sep s) s := by
  have hlaid := laid_intercalate (fun piece (hmem : piece ∈ pieces sep s) =>
    notMem_of_mem_pieces hmem)
  rw [intercalate_pieces] at hlaid
  exact hlaid

/-- The fields of a text are the only ones that are laid out in it. -/
theorem laid_iff : Laid sep names s ↔ names = fields sep s := by
  constructor
  · exact Laid.eq_fields
  · intro h
    rw [h]
    exact laid_fields sep s

/-! ### Where a field stands -/

theorem gap_eq_empty_or (sep : Char) (count : Nat) :
    gap sep count = "" ∨ (gap sep count).toList.getLast? = some sep := by
  cases count with
  | zero => exact Or.inl rfl
  | succ count => exact Or.inr (by rw [gap, String.toList_ofList, List.getLast?_replicate]; rfl)

/-- A field begins its text or stands behind a separator. -/
theorem Laid.exists_eq_append (h : Laid sep names s)
    (hf : f ∈ names) :
    ∃ before after, s = before ++ f ++ after
      ∧ (before = "" ∨ before.toList.getLast? = some sep) := by
  induction h with
  | blank count => exact absurd hf List.not_mem_nil
  | last count hne hsep =>
    rw [List.mem_singleton.mp hf]
    exact ⟨gap sep count, "", (String.append_empty).symm, gap_eq_empty_or sep count⟩
  | @next count field others rest hne hsep hrest ih =>
    rcases List.mem_cons.mp hf with hfield | hlater
    · rw [hfield]
      exact ⟨gap sep count, String.singleton sep ++ rest, by simp only [String.append_assoc],
        gap_eq_empty_or sep count⟩
    · rcases ih hlater with ⟨before, after, hrest, hbefore⟩
      refine ⟨gap sep count ++ field ++ String.singleton sep ++ before, after, ?_, Or.inr ?_⟩
      · rw [hrest]
        simp only [String.append_assoc]
      · rw [String.toList_append, List.getLast?_append]
        rcases hbefore with hempty | hlast
        · rw [hempty, String.toList_append, List.getLast?_append]
          simp
        · rw [hlast]
          rfl

-- Before a character that is no separator there is no gap.
theorem eq_zero_of_head? {count : Nat} (hc : c ≠ sep)
    (h : (gap sep count ++ s).toList.head? = some c) : count = 0 := by
  cases count with
  | zero => rfl
  | succ count =>
    rw [gap_succ, String.append_assoc, String.toList_append, String.toList_singleton,
      List.singleton_append, List.head?_cons, Option.some.injEq] at h
    exact absurd h.symm hc

-- So a text that begins with such a character begins with a field.
theorem Laid.exists_head (h : Laid sep names s) (hc : c ≠ sep)
    (hhead : s.toList.head? = some c) : ∃ f ∈ names, f.toList.head? = some c := by
  cases h with
  | blank count =>
    rw [← String.append_empty (s := gap sep count)] at hhead
    rw [eq_zero_of_head? hc hhead] at hhead
    exact absurd hhead (by simp [gap_zero])
  | @last count field hne hsep =>
    rw [eq_zero_of_head? hc hhead, gap_zero, String.empty_append] at hhead
    exact ⟨field, List.mem_cons_self, hhead⟩
  | @next count field others rest hne hsep hrest =>
    rcases List.exists_cons_of_ne_nil (fun hnil => hne (String.toList_eq_nil_iff.mp hnil)) with
      ⟨d, later, hfield⟩
    rw [String.append_assoc, String.append_assoc] at hhead
    rw [eq_zero_of_head? hc hhead, gap_zero, String.empty_append, String.toList_append, hfield,
      List.cons_append, List.head?_cons] at hhead
    exact ⟨field, List.mem_cons_self, hfield ▸ hhead⟩

/-- Some field begins with a character exactly if the text does, or if the
    character stands behind a separator in it. -/
theorem exists_head_mem_fields_iff (hc : c ≠ sep) :
    (∃ f ∈ fields sep s, f.toList.head? = some c)
      ↔ s.toList.head? = some c ∨ [sep, c] <:+: s.toList := by
  constructor
  · rintro ⟨f, hf, hhead⟩
    rcases (laid_fields sep s).exists_eq_append hf with ⟨before, after, hs, hbefore⟩
    rcases List.head?_eq_some_iff.mp hhead with ⟨later, hlater⟩
    rcases hbefore with hempty | hlast
    · left
      rw [hs, hempty, String.empty_append, String.toList_append, hlater]
      rfl
    · right
      rcases List.getLast?_eq_some_iff.mp hlast with ⟨first, hfirst⟩
      refine ⟨first, later ++ after.toList, ?_⟩
      rw [hs, String.toList_append, String.toList_append, hlater, hfirst]
      simp
  · rintro (hhead | ⟨first, later, hs⟩)
    · exact (laid_fields sep s).exists_head hc hhead
    · -- The separator cuts the text in two, and the second part begins with the character.
      have hcut : s = String.ofList first ++ String.singleton sep ++ String.ofList (c :: later) := by
        rw [← String.toList_inj, ← hs]
        simp
      rcases (laid_fields sep (String.ofList (c :: later))).exists_head hc
        (by rw [String.toList_ofList]; rfl) with ⟨f, hf, hhead⟩
      refine ⟨f, ?_, hhead⟩
      rw [hcut, fields_append]
      exact List.mem_append_right _ hf

end Text

end StrataShell
