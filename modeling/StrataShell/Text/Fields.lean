/-!
# Cutting Text at a Character

Lines, paths and content paths are all cut the same way: at every occurrence
of one separating character. What differs is whether the empty pieces matter,
so there are two functions. `pieces` keeps them, and joining its result with
the separator gives the text back. `fields` drops them, which is what makes
`//a/` and `/a` the same path and runs of blanks the same gap.

Both work on the characters of the text, so that facts about them are facts
about lists.

## Main definitions

* `pieces`: What stands between the occurrences of a character.
* `fields`: The pieces that are not empty.

## Theorems

* `ne_empty_of_mem_fields`: No field is empty.
* `fields_empty`: The empty text has no field.
-/

namespace StrataShell

namespace Text

/-- What stands between the occurrences of `sep`, empty pieces included: one
    piece more than there are separators. -/
def pieces (sep : Char) (s : String) : List String :=
  (s.toList.splitOn sep).map String.ofList

/-- The pieces that are not empty. -/
def fields (sep : Char) (s : String) : List String :=
  (pieces sep s).filter (fun piece => piece ≠ "")

/-- No field is empty. -/
theorem ne_empty_of_mem_fields {sep : Char} {s f : String} (h : f ∈ fields sep s) : f ≠ "" := by
  simp only [fields, List.mem_filter, decide_eq_true_eq] at h
  exact h.2

/-- The empty text has no field. -/
theorem fields_empty (sep : Char) : fields sep "" = [] := rfl

end Text

end StrataShell
