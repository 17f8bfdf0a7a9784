/-!
# Blank Characters

The characters that count as white space when a submitted line is trimmed: the
property `White_Space` of the Unicode character database. The no-break space
and the line separator are in it; the zero width space and the byte order mark
are not.

Trimming is the only place that asks. The command line itself is cut at the
plain space alone, so a tab inside a line belongs to its field.

What trimming leaves is settled by two conditions. Nothing but blanks was taken
away, at the two ends and nowhere else, and no blank is left at either end. No
other text meets both, so whatever is to be known of a trimmed line follows from
them, and `trim` itself is not looked into again.

## Main definitions

* `isBlank`: Whether a character has the property `White_Space`.
* `AllBlank`: A text of blanks only.
* `IsTrimmed`: A text with no blank at either end.
* `trim`: A text without the blanks at its two ends.

## Theorems

* `trim_eq_iff`: What trimming leaves.
* `isTrimmed_trim`: It leaves no blank at either end.
* `exists_eq_append_trim`: It takes nothing away but blanks.
-/

namespace StrataShell

namespace Text

/-- Whether a character has the Unicode property `White_Space`. -/
def isBlank (c : Char) : Bool :=
  let n := c.toNat
  (0x09 ≤ n && n ≤ 0x0D) || n == 0x20 || n == 0x85 || n == 0xA0 || n == 0x1680
    || (0x2000 ≤ n && n ≤ 0x200A) || n == 0x2028 || n == 0x2029 || n == 0x202F
    || n == 0x205F || n == 0x3000

/-- A text of blanks only. -/
def AllBlank (s : String) : Prop :=
  ∀ c ∈ s.toList, isBlank c = true

/-- A text that neither begins nor ends with a blank. -/
def IsTrimmed (s : String) : Prop :=
  (∀ c ∈ s.toList.head?, isBlank c = false) ∧ ∀ c ∈ s.toList.getLast?, isBlank c = false

/-- The text without the blanks at its two ends. -/
def trim (s : String) : String :=
  String.ofList ((s.toList.dropWhile isBlank).reverse.dropWhile isBlank).reverse

-- Dropping blanks stops at a character that is none.
theorem not_isBlank_of_mem_head?_dropWhile (cs : List Char) {c : Char}
    (h : c ∈ (cs.dropWhile isBlank).head?) : isBlank c = false := by
  have hstop := List.head?_dropWhile_not isBlank cs
  rw [Option.mem_def.mp h] at hstop
  exact hstop

-- So where a text begins with such a character, nothing is dropped.
theorem dropWhile_isBlank_eq_self {cs : List Char} (h : ∀ c ∈ cs.head?, isBlank c = false) :
    cs.dropWhile isBlank = cs := by
  cases cs with
  | nil => rfl
  | cons c rest =>
    have hc : isBlank c = false := h c rfl
    rw [List.dropWhile_cons, if_neg (by rw [hc]; exact Bool.false_ne_true)]

-- Behind what trimming leaves, the text has only blanks.
theorem exists_dropWhile_eq_append (s : String) :
    ∃ back, AllBlank back ∧ s.toList.dropWhile isBlank = (trim s).toList ++ back.toList := by
  -- They were dropped from the front of the reversed text.
  let reversed := (s.toList.dropWhile isBlank).reverse
  refine ⟨String.ofList (reversed.takeWhile isBlank).reverse, fun c hmem => ?_, ?_⟩
  · rw [String.toList_ofList, List.mem_reverse] at hmem
    exact List.all_eq_true.mp List.all_takeWhile c hmem
  · rw [trim, String.toList_ofList, String.toList_ofList, ← List.reverse_append,
      List.takeWhile_append_dropWhile, List.reverse_reverse]

/-- Trimming takes nothing away but blanks at the two ends. -/
theorem exists_eq_append_trim (s : String) :
    ∃ front back, AllBlank front ∧ AllBlank back ∧ s = front ++ trim s ++ back := by
  rcases exists_dropWhile_eq_append s with ⟨back, hback, hkept⟩
  refine ⟨String.ofList (s.toList.takeWhile isBlank), back, fun c hmem => ?_, hback, ?_⟩
  · rw [String.toList_ofList] at hmem
    exact List.all_eq_true.mp List.all_takeWhile c hmem
  · rw [← String.toList_inj, String.toList_append, String.toList_append, String.toList_ofList,
      List.append_assoc, ← hkept, List.takeWhile_append_dropWhile]

/-- Trimming leaves no blank at either end. -/
theorem isTrimmed_trim (s : String) : IsTrimmed (trim s) := by
  refine ⟨fun c hc => ?_, fun c hc => ?_⟩
  · -- What is left begins where the text without its leading blanks does.
    rcases exists_dropWhile_eq_append s with ⟨back, _, hkept⟩
    refine not_isBlank_of_mem_head?_dropWhile s.toList ?_
    rw [hkept, List.head?_append, Option.mem_def.mp hc]
    rfl
  · rw [trim, String.toList_ofList, List.getLast?_reverse] at hc
    exact not_isBlank_of_mem_head?_dropWhile _ hc

/-- What trimming leaves: the text that has no blank at either end and to which
    only blanks at the two ends were wanting. -/
theorem trim_eq_iff {s t : String} :
    trim s = t
      ↔ IsTrimmed t ∧ ∃ front back, AllBlank front ∧ AllBlank back ∧ s = front ++ t ++ back := by
  constructor
  · intro h
    rw [← h]
    exact ⟨isTrimmed_trim s, exists_eq_append_trim s⟩
  · rintro ⟨⟨hhead, hlast⟩, front, back, hfront, hback, hs⟩
    have hchars : s.toList = front.toList ++ (t.toList ++ back.toList) := by
      rw [hs, String.toList_append, String.toList_append, List.append_assoc]
    rw [trim, hchars, List.dropWhile_append_of_pos hfront]
    by_cases hnil : t.toList = []
    · -- All of the text is blank.
      rw [hnil, List.nil_append, ← List.append_nil back.toList,
        List.dropWhile_append_of_pos hback, String.toList_eq_nil_iff.mp hnil]
      rfl
    · have hkept : ∀ c ∈ (t.toList ++ back.toList).head?, isBlank c = false := by
        intro c hc
        rw [List.head?_append, List.head?_eq_some_head hnil, Option.some_or] at hc
        exact hhead c (List.head?_eq_some_head hnil ▸ hc)
      have hend : ∀ c ∈ t.toList.reverse.head?, isBlank c = false := by
        rw [List.head?_reverse]
        exact hlast
      rw [dropWhile_isBlank_eq_self hkept, List.reverse_append,
        List.dropWhile_append_of_pos (fun c hmem => hback c (List.mem_reverse.mp hmem)),
        dropWhile_isBlank_eq_self hend, List.reverse_reverse, String.ofList_toList]

-- A no-break space at an end is a blank, and a tab inside the text stays.
example : trim "\u00a0 a\tb\n" = "a\tb" := by decide

end Text

end StrataShell
