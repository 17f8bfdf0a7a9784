import StrataShell.Proofs.Text.Fields
import StrataShell.Text.Blank

/-!
# What Trimming Leaves

A line is trimmed of every blank of Unicode and then cut into words at the
plain space alone. The two notions agree where it matters. What trimming leaves
of a line that is not blank begins and ends with a character that is no blank,
hence no space, so there is a word in it.

## Theorems

* `exists_not_isBlank_of_trim`: A trimmed text that is not empty has a
  character that is no blank.
* `fields_trim_ne_nil`: So it has a word.
* `trim_concat`: A blank behind a text is trimmed away.
-/

namespace StrataShell

namespace Text

/-- A trimmed text that is not empty has a character that is no blank: the one
    with which it begins. -/
theorem exists_not_isBlank_of_trim {s : String} (h : trim s ≠ "") :
    ∃ c ∈ (trim s).toList, isBlank c = false := by
  have hchars : (trim s).toList ≠ [] := fun hnil => h (String.toList_eq_nil_iff.mp hnil)
  exact ⟨_, List.head_mem hchars, (isTrimmed_trim s).1 _ (List.head?_eq_some_head hchars)⟩

-- The space is a blank, so the character is no space and belongs to a word.
theorem fields_trim_ne_nil {s : String} (h : trim s ≠ "") : fields ' ' (trim s) ≠ [] := by
  rcases exists_not_isBlank_of_trim h with ⟨c, hmem, hc⟩
  intro hnil
  have hspace : c = ' ' := fields_eq_nil_iff.mp hnil c hmem
  rw [hspace] at hc
  exact absurd hc (by decide)

/-- A blank behind a text is trimmed away. -/
theorem trim_concat (s : String) {c : Char} (hc : isBlank c = true) :
    trim (s ++ String.singleton c) = trim s := by
  rcases exists_eq_append_trim s with ⟨front, back, hfront, hback, hs⟩
  have hbehind : AllBlank (back ++ String.singleton c) := by
    rw [AllBlank, String.toList_append, String.toList_singleton, List.forall_mem_append,
      List.forall_mem_singleton]
    exact ⟨hback, hc⟩
  refine trim_eq_iff.mpr ⟨isTrimmed_trim s, front, back ++ String.singleton c, hfront, hbehind, ?_⟩
  rw [← String.append_assoc, ← hs]

end Text

end StrataShell
