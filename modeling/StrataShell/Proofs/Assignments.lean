import Mathlib.Data.List.Forall2
import Mathlib.Data.List.Dedup
import StrataShell.Proofs.NameMap
import StrataShell.Proofs.Returning

/-!
# What Variables Hold After a Run

The value of a variable can be read off the lines that were typed, without
keeping track of any session. It is what the last line that assigns it assigns,
and if no line does, what it was given last at the start. Lines that are too
short to assign anything, and lines of all other commands, do not count.

One line enters at most one value, so a run enters the list of its assignments
into the variables that were there. What a map holds after a list was entered is
the concern of `Proofs.NameMap`; looking a name up from the end of the list is
the same as taking the last entry of that name.

## Main definitions

* `assignment?`: The name and the value that the words of a line assign.
* `NameMap.lastEntry?`: The last value listed under a name.
* `standing?`: The value of a name after some lines.
* `Variables.ReadsAs`: What a word is replaced with when it is echoed.

## Theorems

* `get?_reverse_eq_lastEntry?`: The search from the end finds the last entry.
* `vars_exec`: A line enters what it assigns.
* `vars_after`: A run enters the list of its assignments.
* `get?_vars_after`: A variable has the value that stands after the lines.
* `forall₂_readsAs`: Words are expanded one by one.
* `last_assignment_stands`: The variables are printed and echoed accordingly.
-/

namespace StrataShell

namespace NameMap

variable {α : Type}

/-- The last value that is listed under a name. -/
def lastEntry? (name : String) (entries : List (String × α)) : Option α :=
  ((entries.filter (fun entry => entry.1 = name)).map Prod.snd).getLast?

-- A map is searched for the first entry of the name.
theorem get?_eq_head? (name : String) (m : NameMap α) :
    get? name m = ((m.filter (fun entry => entry.1 = name)).map Prod.snd).head? := by
  induction m with
  | nil => rfl
  | cons entry rest ih =>
    by_cases h : entry.1 = name
    · have hfirst : decide (entry.1 = name) = true := decide_eq_true h
      simp only [get?, if_pos h, List.filter_cons, hfirst, if_true, List.map_cons, List.head?_cons]
    · have hother : decide (entry.1 = name) = false := decide_eq_false h
      simp only [get?, if_neg h, List.filter_cons, hother, Bool.false_eq_true, if_false, ih]

/-- The search from the end finds the last entry. -/
theorem get?_reverse_eq_lastEntry? (name : String) (entries : List (String × α)) :
    get? name entries.reverse = lastEntry? name entries := by
  rw [get?_eq_head?, List.filter_reverse, List.map_reverse, List.head?_reverse, lastEntry?]

-- A map that was entered from a list has each of its names once.
theorem length_ofList (entries : List (String × α)) :
    (ofList entries).length = (names entries).dedup.length := by
  have hperm : (names (ofList entries)).Perm (names entries).dedup := by
    refine (List.perm_ext_iff_of_nodup (distinct_ofList entries) (List.nodup_dedup _)).mpr ?_
    intro name
    rw [mem_names_ofList, List.mem_dedup]
  rw [← hperm.length_eq, names, List.length_map]

end NameMap

namespace Variables

/-- What a word is replaced with when it is echoed, where each name has the value
    that a function gives it: a word with the mark of a variable is replaced with
    the value, or with nothing if there is none, and any other word stands. -/
inductive ReadsAs (value? : String → Option String) : String → String → Prop
  | variable (name : String) : ReadsAs value? ("$" ++ name) ((value? name).getD "")
  | plain (word : String) (h : ∀ name, word ≠ "$" ++ name) : ReadsAs value? word word

theorem nameOf?_variable (name : String) : nameOf? ("$" ++ name) = some name := by
  have hchars : ("$" ++ name).toList = sigil :: name.toList := String.toList_append
  simp only [nameOf?, hchars, if_true, String.ofList_toList]

-- Only a word with the mark in front names a variable.
theorem eq_of_nameOf? {word name : String} (h : nameOf? word = some name) : word = "$" ++ name := by
  cases hword : word.toList with
  | nil =>
    rw [String.toList_eq_nil_iff.mp hword] at h
    exact absurd h (Option.some_ne_none name).symm
  | cons c rest =>
    simp only [nameOf?, hword, Option.ite_none_right_eq_some, Option.some.injEq] at h
    have hrest : name.toList = rest := by rw [← h.2, String.toList_ofList]
    rw [← String.toList_inj, hword, h.1, String.toList_append, hrest]
    rfl

theorem expandWord_variable (vars : Variables) (name : String) :
    expandWord vars ("$" ++ name) = (NameMap.get? name vars).getD "" := by
  simp only [expandWord, nameOf?_variable]

theorem readsAs_expandWord (vars : Variables) (word : String) :
    ReadsAs (NameMap.get? · vars) word (expandWord vars word) := by
  cases hname : nameOf? word with
  | some name =>
    rw [eq_of_nameOf? hname, expandWord_variable]
    exact .variable name
  | none =>
    simp only [expandWord, hname]
    refine .plain word (fun name hword => ?_)
    rw [hword, nameOf?_variable] at hname
    exact Option.some_ne_none name hname

/-- Words are expanded one by one. -/
theorem forall₂_readsAs (vars : Variables) (words : List String) :
    List.Forall₂ (ReadsAs (NameMap.get? · vars)) words (words.map (expandWord vars)) := by
  rw [List.forall₂_map_right_iff, List.forall₂_same]
  exact fun word _ => readsAs_expandWord vars word

end Variables

namespace Session

variable {s : Session} {line name value : String} {words : List String}

/-- The name and the value that the words of a line assign. -/
def assignment? (line : String) : Option (String × String) :=
  match tokenize line with
  | "set" :: name :: word :: more => some (name, String.intercalate " " (word :: more))
  | _ => none

/-- The value of a name after some lines: what the last line that assigns it
    assigns, and without such a line what it was given last at the start. -/
def standing? (initial : List (String × String)) (lines : List String) (name : String) :
    Option String :=
  (NameMap.lastEntry? name (lines.filterMap assignment?)).or (NameMap.lastEntry? name initial)

theorem assignment?_eq_some_iff : assignment? line = some (name, value) ↔ ∃ word more,
    tokenize line = "set" :: name :: word :: more
      ∧ value = String.intercalate " " (word :: more) := by
  constructor
  · intro h
    unfold assignment? at h
    split at h
    · rename_i other word more hwords
      rw [Option.some.injEq, Prod.mk.injEq] at h
      exact ⟨word, more, h.1 ▸ hwords, h.2.symm⟩
    · exact absurd h (Option.some_ne_none _).symm
  · rintro ⟨word, more, hwords, hvalue⟩
    simp only [assignment?, hwords, hvalue]

/-! ### One line -/

-- Without words for a value the command is not run.
theorem exec_set_of_short (h : tokenize line = ["set", name]) :
    s.exec line = .done (failed .arity, s) := by
  rw [exec, h]
  rfl

/-- A line enters what it assigns into the variables. -/
theorem vars_exec (provider : Option Content.Provider) (s : Session) (line : String) :
    ((s.exec line).run provider).2.vars = NameMap.insertAll s.vars (assignment? line).toList := by
  cases hassign : assignment? line with
  | some entry =>
    rcases entry with ⟨name, value⟩
    rcases assignment?_eq_some_iff.mp hassign with ⟨word, more, hwords, hvalue⟩
    rw [exec_eq_perform .set hwords rfl, hvalue]
    rfl
  | none =>
    by_contra hne
    rcases (exec_does provider s line).vars hne with ⟨_, name, values, hwords, hvars⟩
    cases values with
    | nil =>
      rw [exec_set_of_short hwords] at hne
      exact hne rfl
    | cons word more =>
      rw [assignment?_eq_some_iff.mpr ⟨word, more, hwords, rfl⟩] at hassign
      exact absurd hassign (Option.some_ne_none _)

-- A word that names a variable can stand in a line.
theorem isWord_variable (h : IsWord name) : IsWord ("$" ++ name) := by
  refine ⟨fun hempty => ?_, ?_⟩
  · rw [String.append_eq_empty_iff] at hempty
    exact h.1 hempty.2
  · rw [String.toList_append, List.mem_append]
    exact fun hmem => hmem.elim (by decide) h.2

theorem exec_print (provider : Option Content.Provider) (s : Session) (hname : IsWord name) :
    (s.exec ("print " ++ name)).run provider
      = ((NameMap.get? name s.vars).elim (.failure "Variable does not exist") .success, s) := by
  have hline := tokenize_command .print (show "print " = "print" ++ " " by decide) hname
  rw [exec_eq_perform .print hline rfl, perform, Step.run, List.headD_cons, printVariable]
  cases NameMap.get? name s.vars <;> rfl

theorem exec_echo (provider : Option Content.Provider) (s : Session)
    (hline : tokenize line = "echo" :: words) (hwords : words ≠ []) :
    (s.exec line).run provider = (.success (s.vars.expand words), s) := by
  have harity : (Command.arity .echo).accepts words.length = true :=
    decide_eq_true (List.length_pos_iff.mpr hwords)
  rw [exec_eq_perform .echo hline harity]
  rfl

/-! ### A run -/

/-- A run enters the list of its assignments into the variables. -/
theorem vars_after (provider : Option Content.Provider) (s : Session) (lines : List String) :
    (s.after provider (lines.map .line)).vars
      = NameMap.insertAll s.vars (lines.filterMap assignment?) := by
  induction lines generalizing s with
  | nil => rfl
  | cons line rest ih =>
    have hone : (line :: rest).filterMap assignment?
        = (assignment? line).toList ++ rest.filterMap assignment? := by
      rw [List.filterMap_cons]
      cases assignment? line <;> rfl
    rw [List.map_cons, after_line, ih, vars_exec, hone, NameMap.insertAll_append]

/-- A variable has the value that stands after the lines. -/
theorem get?_vars_after (provider : Option Content.Provider) {initial : List (String × String)}
    (hstart : s.vars = NameMap.ofList initial) (lines : List String) (name : String) :
    NameMap.get? name (s.after provider (lines.map .line)).vars = standing? initial lines name := by
  rw [vars_after, hstart, NameMap.ofList, NameMap.get?_insertAll, NameMap.get?_insertAll,
    NameMap.get?_reverse_eq_lastEntry?, NameMap.get?_reverse_eq_lastEntry?, standing?]
  exact congrArg _ Option.or_none

/-- The last assignment stands. Let a session start with variables that a list of
    values was entered into, and run any lines in it. A name then has the value
    that the last line that assigns it assigns, and without such a line the last
    value of the list under that name. This value is printed as it is, even if it
    is empty, and only a name without one is told not to exist. The same value is
    echoed for the name, or nothing. Some words are echoed one by one with a space
    between them: a word with the mark of a variable as the value that stands for
    the rest of it, which is not looked at again, and any other word as it is.
    There are as many variables as names were given a value, at the start or by a
    line. -/
theorem last_assignment_stands (provider : Option Content.Provider) (fs : FileSystem)
    (initial : List (String × String)) (lines : List String) :
    let start : Session := { fileSystem := fs, vars := NameMap.ofList initial }
    let s := start.after provider (lines.map .line)
    let value? := standing? initial lines
    (∀ name, IsWord name →
      (s.exec ("print " ++ name)).run provider
          = ((value? name).elim (.failure "Variable does not exist") .success, s)
        ∧ (s.exec ("echo $" ++ name)).run provider = (.success ((value? name).getD ""), s))
      ∧ (∀ line words, tokenize line = "echo" :: words → words ≠ [] →
        ∃ texts, List.Forall₂ (Variables.ReadsAs value?) words texts
          ∧ (s.exec line).run provider = (.success (String.intercalate " " texts), s))
      ∧ s.vars.length
        = (NameMap.names (initial ++ lines.filterMap assignment?)).dedup.length := by
  intro start s value?
  have hvalue : (NameMap.get? · s.vars) = value? :=
    funext (get?_vars_after (s := start) provider rfl lines)
  refine ⟨fun name hname => ⟨?_, ?_⟩, fun line words hline hwords => ?_, ?_⟩
  · rw [exec_print provider s hname, ← hvalue]
  · have hmark : "echo $" ++ name = "echo " ++ ("$" ++ name) := by
      rw [← String.append_assoc]
      rfl
    have hline := tokenize_command .echo (show "echo " = "echo" ++ " " by decide)
      (isWord_variable hname)
    rw [hmark, exec_echo provider s hline (List.cons_ne_nil _ _), Variables.expand,
      List.map_singleton, String.intercalate_singleton, Variables.expandWord_variable, ← hvalue]
  · exact ⟨_, hvalue ▸ Variables.forall₂_readsAs s.vars words, exec_echo provider s hline hwords⟩
  · rw [vars_after, ← NameMap.length_ofList, NameMap.ofList, NameMap.insertAll_append]
    rfl

/-- A name with an empty value at the start, a name whose value reads like a
    variable, and lines that assign nothing because they are too short or call
    another command. -/
theorem last_assignment_stands_marked :
    let initial := [("A", "1"), ("B", ""), ("A", "2")]
    let lines := ["set X 3", "set A", "set X  $A  is", "cd nowhere", "set X"]
    let s := ({ fileSystem := { permanentTree := {} }, vars := NameMap.ofList initial } :
      Session).after none (lines.map .line)
    IsWord "X" ∧ IsWord "B" ∧ IsWord "Y"
      ∧ tokenize "echo $X $A A" = ["echo", "$X", "$A", "A"]
      ∧ ((s.exec "print X").run none).1 = .success "$A is"
      ∧ ((s.exec "echo $X").run none).1 = .success "$A is"
      ∧ ((s.exec "print B").run none).1 = .success ""
      ∧ ((s.exec "print Y").run none).1 = .failure "Variable does not exist"
      ∧ (∃ texts, ((s.exec "echo $X $A A").run none).1 = .success (String.intercalate " " texts)
        ∧ List.Forall₂ (Variables.ReadsAs (standing? initial lines)) ["$X", "$A", "A"] texts)
      ∧ s.vars.length = 3 := by
  intro initial lines s
  have hX : IsWord "X" := by decide
  have hB : IsWord "B" := by decide
  have hY : IsWord "Y" := by decide
  have hline : tokenize "echo $X $A A" = ["echo", "$X", "$A", "A"] := by decide +kernel
  rcases last_assignment_stands none { permanentTree := {} } initial lines with
    ⟨hnames, hwords, hlength⟩
  refine ⟨hX, hB, hY, hline, ?_, ?_, ?_, ?_, ?_, ?_⟩
  · exact (congrArg Prod.fst (hnames "X" hX).1).trans (by decide +kernel)
  · exact (congrArg Prod.fst (hnames "X" hX).2).trans (by decide +kernel)
  · exact (congrArg Prod.fst (hnames "B" hB).1).trans (by decide +kernel)
  · exact (congrArg Prod.fst (hnames "Y" hY).1).trans (by decide +kernel)
  · rcases hwords _ _ hline (List.cons_ne_nil _ _) with ⟨texts, htexts, hrun⟩
    exact ⟨texts, congrArg Prod.fst hrun, htexts⟩
  · exact hlength.trans (by decide +kernel)

end Session

end StrataShell
