import StrataShell.Proofs.Run

/-!
# The Journal of a Run

The local tree of a session is what it was at first and what the run has
created since. The journal lists these creations, and it is read off the log
alone: an entry of the log is a creation when the action asked for one and the
reply says that it was made. Nothing else that was answered matters, and
nothing that was not answered can have happened.

The two layers are checked against each other when an entry is created, but
only the local one is written. That no creation of a journal lands on an entry
that is already there therefore rests on the checks that concern the local
tree, which are part of what `Creation.Grows` asks for.

## Main definitions

* `LogEntry.creation?`: The creation that an entry of the log records.
* `Session.journal`: The creations of a run, first one first.

## Theorems

* `exists_of_mem_journal`: Where an entry of the journal was made.
* `act_grown`: An action makes what the log records of it.
* `after_grown`: A run makes its journal.
* `localTree_journal`: The local tree after a run, said of the journal.
-/

namespace StrataShell

/-- The creation that an entry of the log records: the one that the action asks
    for at the path where it was taken, if the reply says that it succeeded. -/
def LogEntry.creation? (e : LogEntry) : Option Creation :=
  if e.reply.accepted then e.action.call?.bind (Call.creation? (Path.segments e.path)) else none

namespace Session

/-- The creations of a run, first one first. -/
def journal (provider : Option Content.Provider) (s : Session) (actions : List Action) :
    List Creation :=
  (s.log provider actions).filterMap LogEntry.creation?

/-- A directory is in the journal if a `mkdir` at its place was accepted. -/
theorem dir_mem_journal_iff {provider : Option Content.Provider} {s : Session}
    {actions : List Action} {place : List String} {name : String} :
    .dir place name ∈ s.journal provider actions ↔ ∃ e ∈ s.log provider actions,
      e.reply.accepted = true ∧ e.action.call? = some (.mkdir name)
        ∧ Path.segments e.path = place := by
  rw [journal, List.mem_filterMap]
  refine exists_congr (fun e => and_congr_right (fun _ => ?_))
  rw [LogEntry.creation?]
  by_cases haccepted : e.reply.accepted = true
  · rw [if_pos haccepted]
    cases e.action.call? with
    | none => simp
    | some c => cases c <;> simp [Call.creation?, haccepted, and_comm]
  · rw [if_neg haccepted]
    simp [haccepted]

-- What the log records of an action is the creation of its call, if that succeeds.
theorem creation?_entry (provider : Option Content.Provider) (s : Session) (a : Action) :
    (s.entry provider a).creation? = a.call?.bind (fun c =>
      match s.fileSystem.answer c with
      | .ok _ => c.creation? s.fileSystem.place
      | .error _ => none) := by
  rw [LogEntry.creation?, entry]
  cases hc : a.call? with
  | none => simp only [Option.bind_none, ite_self]
  | some c =>
    simp only [Option.bind_some]
    by_cases hasks : c.asks = true
    · rcases accepted_cases provider s hc hasks with
        ⟨⟨fs, hok⟩, haccepted⟩ | ⟨⟨cause, herror⟩, hrefused⟩ | ⟨hup, _, herror⟩
      · rw [hok, if_pos haccepted]
        rfl
      · rw [herror, if_neg (Bool.eq_false_iff.mp hrefused)]
      · -- Going up is no creation, whatever the reply.
        rw [herror, hup, Call.creation?, ite_self]
    · have hnone : ∀ place, c.creation? place = none := by
        cases c <;> first | exact fun _ => rfl | exact absurd rfl hasks
      rw [FileSystem.answer_of_not_asks hasks, hnone, hnone, ite_self]

theorem journal_cons (provider : Option Content.Provider) (s : Session) (a : Action)
    (rest : List Action) : s.journal provider (a :: rest)
      = (s.entry provider a).creation?.toList ++ (s.act provider a).2.journal provider rest := by
  rw [journal, log, List.filterMap_cons]
  cases (s.entry provider a).creation? <;> rfl

/-- An entry of the journal was made by a call that succeeded, at the place that
    the run had come to. -/
theorem exists_of_mem_journal {provider : Option Content.Provider} {s : Session}
    {actions : List Action} {made : Creation} (h : made ∈ s.journal provider actions) :
    ∃ first c fs, first <+: actions ∧ (s.after provider first).fileSystem.answer c = .ok fs
      ∧ c.creation? (s.after provider first).fileSystem.place = some made := by
  induction actions generalizing s with
  | nil => exact absurd h List.not_mem_nil
  | cons a rest ih =>
    rw [journal_cons] at h
    rcases List.mem_append.mp h with hhere | hlater
    · rw [Option.mem_toList, creation?_entry] at hhere
      rcases Option.bind_eq_some_iff.mp hhere with ⟨c, _, hmade⟩
      cases hanswer : s.fileSystem.answer c with
      | error cause => simp [hanswer] at hmade
      | ok fs =>
        simp only [hanswer] at hmade
        exact ⟨[], c, fs, List.nil_prefix, hanswer, hmade⟩
    · rcases ih hlater with ⟨first, c, fs, hfirst, hanswer, hmade⟩
      exact ⟨a :: first, c, fs, List.cons_prefix_cons.mpr ⟨rfl, hfirst⟩, hanswer, hmade⟩

/-- An action leaves the permanent tree as it is, and makes in the local one
    what the log records of it. -/
theorem act_grown (provider : Option Content.Provider) (s : Session) (a : Action) :
    let fs := (s.act provider a).2.fileSystem
    match (s.entry provider a).creation? with
    | none => fs.permanentTree = s.fileSystem.permanentTree
      ∧ fs.localTree = s.fileSystem.localTree
    | some made => fs = s.fileSystem.withCreation made
      ∧ made.Grows s.fileSystem.localTree fs.localTree := by
  intro fs
  have hfs : fs = a.call?.elim s.fileSystem s.fileSystem.afterCall := act_fileSystem provider s a
  rw [hfs, creation?_entry]
  cases a.call? with
  | none => exact ⟨rfl, rfl⟩
  | some c =>
    simp only [Option.elim_some, Option.bind_some, FileSystem.afterCall]
    cases hanswer : s.fileSystem.answer c with
    | error cause => exact ⟨rfl, rfl⟩
    | ok fs' => exact FileSystem.answer_creation hanswer

/-- A run leaves the permanent tree as it is, and makes in the local one what
    its journal says, one creation after the other. -/
theorem after_grown (provider : Option Content.Provider) (s : Session) (actions : List Action) :
    let fs := (s.after provider actions).fileSystem
    fs.permanentTree = s.fileSystem.permanentTree
      ∧ fs.localTree = (s.journal provider actions).foldl (fun d made => made.make d)
          s.fileSystem.localTree
      ∧ Grown s.fileSystem.localTree (s.journal provider actions) fs.localTree := by
  induction actions generalizing s with
  | nil => exact ⟨rfl, rfl, Grown.refl s.fileSystem.localTree⟩
  | cons a rest ih =>
    -- The rest of the run starts from the tree that the first action has left.
    have hfirst := act_grown provider s a
    have hlater := ih (s.act provider a).2
    rw [after_cons, journal, log, List.filterMap_cons]
    cases hmade : (s.entry provider a).creation? with
    | none =>
      simp only [hmade] at hfirst
      simp only [hfirst.1, hfirst.2] at hlater
      exact hlater
    | some made =>
      simp only [hmade] at hfirst
      simp only [hfirst.1, FileSystem.withCreation] at hlater
      exact ⟨hlater.1, hlater.2.1, Grown.step _ _ _ made _ hfirst.2 (hfirst.1 ▸ hlater.2.2)⟩

/-- The local tree after a run, said of the journal. The permanent tree is what
    it was, and the local one is what the creations of the journal make of it.
    A list of names leads to a directory if it did so before or a `mkdir` of
    the run made it, and a file is there if it was before, with the same
    content, or a `touch` of the run made it, empty. No creation is made twice,
    and none of an entry that was there at first. In each directory the created
    entries follow the first ones in the order of their creation. -/
theorem localTree_journal (provider : Option Content.Provider) (s : Session)
    (actions : List Action) :
    let before := s.fileSystem.localTree
    let now := (s.after provider actions).fileSystem.localTree
    let journal := s.journal provider actions
    (s.after provider actions).fileSystem.permanentTree = s.fileSystem.permanentTree
      ∧ now = journal.foldl (fun d made => made.make d) before
      ∧ (∀ q, q ≠ [] → ((now.resolve q).isSome = true ↔ (before.resolve q).isSome = true
          ∨ ∃ e ∈ s.log provider actions, e.reply.accepted = true ∧ ∃ name,
            e.action.call? = some (.mkdir name) ∧ Path.segments e.path ++ [name] = q))
      ∧ (∀ place name, now.fileAt? place name
          = if .file place name ∈ journal then some "" else before.fileAt? place name)
      ∧ journal.Nodup
      ∧ (∀ place name, .dir place name ∈ journal → before.resolve (place ++ [name]) = none)
      ∧ (∀ place name, .file place name ∈ journal → before.fileAt? place name = none)
      ∧ (∀ place, now.dirNamesAt place
          = before.dirNamesAt place ++ journal.filterMap (Creation.dirName? place))
      ∧ (∀ place, now.fileNamesAt place
          = before.fileNamesAt place ++ journal.filterMap (Creation.fileName? place)) := by
  intro before now journal
  rcases after_grown provider s actions with ⟨hpermanent, hfold, hgrown⟩
  refine ⟨hpermanent, hfold, fun q hq => ?_, hgrown.fileAt?_eq, hgrown.nodup,
    fun place name hmem => ?_, fun place name hmem => ?_, hgrown.dirNamesAt_eq,
    hgrown.fileNamesAt_eq⟩
  · -- A list of names that is not empty is a place and a name in it.
    rcases List.eq_nil_or_concat q with hnil | ⟨place, name, hparts⟩
    · exact absurd hnil hq
    · rw [List.concat_eq_append] at hparts
      subst hparts
      refine (hgrown.isIn_iff (.dir place name)).trans (or_congr Iff.rfl ?_)
      rw [dir_mem_journal_iff]
      constructor
      · rintro ⟨e, he, haccepted, hcall, hplace⟩
        exact ⟨e, he, haccepted, name, hcall, by rw [hplace]⟩
      · rintro ⟨e, he, haccepted, name', hcall, heq⟩
        rcases List.append_inj' heq rfl with ⟨hplace, hname⟩
        exact ⟨e, he, haccepted, List.singleton_inj.mp hname ▸ hcall, hplace⟩
  · exact Option.not_isSome_iff_eq_none.mp (hgrown.not_isIn hmem)
  · exact Option.not_isSome_iff_eq_none.mp (hgrown.not_isIn hmem)

end Session

end StrataShell
