import StrataShell.Proofs.Text.Layout
import StrataShell.Session

/-!
# The Words of a Line

A line is cut into words before anything else is done with it, and nothing but
the words is looked at afterwards. So what a line does is settled by its words,
and how they are spaced has no influence.

What the words are is said by the layout of the line. They are what remains
between the plain spaces, of which there may be any number at either end and in
between. Every other character belongs to a word, a tab or another blank of the
alphabet as well as a letter.

## Theorems

* `tokenize_eq_iff`: The words of a line are what is laid out in it.
* `exec_of_laid`: Lines with one layout of words do the same.
* `words_of_line`: What the words of a line are, and that they are all that
  counts.
-/

namespace StrataShell

namespace Session

/-- The words of a line are what is laid out in it between spaces. -/
theorem tokenize_eq_iff {line : String} {words : List String} :
    tokenize line = words ↔ Text.Laid ' ' words line :=
  eq_comm.trans Text.laid_iff.symm

theorem tokenize_append (line other : String) :
    tokenize (line ++ " " ++ other) = tokenize line ++ tokenize other :=
  Text.fields_append ' ' line other

theorem tokenize_intercalate {words : List String}
    (h : ∀ word ∈ words, word ≠ "" ∧ ' ' ∉ word.toList) :
    tokenize (String.intercalate " " words) = words :=
  Text.fields_intercalate h

/-- Lines in which the same words are laid out do the same in every session. -/
theorem exec_of_laid {line other : String} (h : Text.Laid ' ' (tokenize line) other)
    (s : Session) : s.exec other = s.exec line := by
  rw [exec, tokenize_eq_iff.mpr h, exec]

-- What stands between two spaces and has none is one word, with all that is in it.
theorem tokenize_between {word : String} (hne : word ≠ "") (hspace : ' ' ∉ word.toList)
    (line other : String) :
    tokenize (line ++ " " ++ word ++ " " ++ other)
      = tokenize line ++ [word] ++ tokenize other := by
  rw [tokenize_append, tokenize_append]
  exact congrArg (fun middle => tokenize line ++ middle ++ tokenize other)
    (Text.fields_singleton hne hspace)

/-- What the words of a line are, and that they are all that counts. They are
    laid out in the line between spaces, and nothing else is; so words that were
    joined by single spaces come back, and a space between two texts divides
    their words. Only a space does this: any other character stays in one word
    with what stands before and behind it. Whatever the spacing, a line asks for
    the same, answers the same and leaves the same session, in every session,
    and so does the line of its words with single spaces. -/
theorem words_of_line (line : String) :
    Text.Laid ' ' (tokenize line) line
      ∧ (∀ words, Text.Laid ' ' words line → words = tokenize line)
      ∧ (∀ words : List String, (∀ word ∈ words, word ≠ "" ∧ ' ' ∉ word.toList) →
          tokenize (String.intercalate " " words) = words)
      ∧ (∀ other, tokenize (line ++ " " ++ other) = tokenize line ++ tokenize other)
      ∧ (∀ (c : Char) (before behind other : String), c ≠ ' ' → ' ' ∉ before.toList →
          ' ' ∉ behind.toList →
          let word := before ++ String.singleton c ++ behind
          tokenize (line ++ " " ++ word ++ " " ++ other)
            = tokenize line ++ [word] ++ tokenize other)
      ∧ (∀ other, Text.Laid ' ' (tokenize line) other →
          ∀ s : Session, s.exec other = s.exec line)
      ∧ ∀ s : Session, s.exec (String.intercalate " " (tokenize line)) = s.exec line := by
  have hlaid : Text.Laid ' ' (tokenize line) line := tokenize_eq_iff.mp rfl
  have hwords : ∀ word ∈ tokenize line, word ≠ "" ∧ ' ' ∉ word.toList := fun word hmem =>
    ⟨Text.ne_empty_of_mem_fields hmem, Text.notMem_of_mem_fields hmem⟩
  refine ⟨hlaid, fun words h => (tokenize_eq_iff.mpr h).symm, fun words => tokenize_intercalate,
    tokenize_append line, ?other, fun other => exec_of_laid, fun s => ?joined⟩
  case other =>
    intro c before behind other hc hbefore hbehind word
    have hchars : word.toList = before.toList ++ c :: behind.toList := by
      simp only [word, String.toList_append, String.toList_singleton, List.append_assoc,
        List.singleton_append]
    refine tokenize_between (fun hempty => ?_) (fun hmem => ?_) line other
    · rw [hempty] at hchars
      exact List.append_ne_nil_of_right_ne_nil _ (List.cons_ne_nil c _) hchars.symm
    · rw [hchars, List.mem_append, List.mem_cons] at hmem
      rcases hmem with hmem | hspace | hmem
      · exact hbefore hmem
      · exact hc hspace.symm
      · exact hbehind hmem
  case joined => exact exec_of_laid (tokenize_eq_iff.mp (tokenize_intercalate hwords)) s

end Session

end StrataShell
