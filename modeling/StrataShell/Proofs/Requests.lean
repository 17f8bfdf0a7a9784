import StrataShell.Proofs.Separation
import StrataShell.Proofs.Transcript

/-!
# What a Provider Is Asked

A run talks to its provider in one way only: a line that shows a file whose
content is deferred asks for that content, once. Which lines these are can be
told from the session before the line, without asking anyone; `wanted?` tells
it. All other lines are answered at once, so no provider has a say in them.

Since an answer is shown and forgotten, it has no influence on later lines. The
sessions of a run are the same with any provider and with none, and so are its
requests. What a provider would answer to a request that is not made has no
influence on anything, which is `exchanges_congr`.

## Main definitions

* `Session.wanted?`: The path that a line asks for.
* `Session.stages`: The lines of a run, each with the session before it.
* `Session.asked`: The paths that a provider is asked for in a run.

## Theorems

* `requests_exec`: A line asks for what is wanted, once.
* `run_exec_snd`: No answer changes a session.
* `exchanges_congr`: Only the answers to the requests of a run matter.
* `asked_eq_wanted`: The requests of a run, and what comes of them.
-/

namespace StrataShell

namespace Step

variable {α : Type}

/-- Only the answers to the requests of a step matter. -/
theorem run_congr {p q : Option Content.Provider} {step : Step α}
    (h : ∀ path ∈ step.requests, Content.fetchText p path = Content.fetchText q path) :
    step.run p = step.run q := by
  cases step with
  | done result => rfl
  | fetch path resume => exact congrArg resume (h path List.mem_cons_self)

end Step

namespace View

-- The search from the end, done in the directory.
theorem get?_reverse_fileEntries {F : Type} (ref : F → FileRef) (name : String)
    (d : Option (Dir F)) :
    NameMap.get? name (fileEntries ref d).reverse
      = (d.bind (fun sub => NameMap.get? name sub.files.reverse)).map ref := by
  cases d with
  | none => rfl
  | some sub =>
    have hreverse : (fileEntries ref (some sub)).reverse
        = sub.files.reverse.map (fun entry => (entry.1, ref entry.2)) := List.map_reverse.symm
    rw [hreverse, NameMap.get?_map]
    rfl

end View

namespace FileSystem

-- What is seen of a name: the last local entry of it, or else the last permanent one.
theorem get?_here_eq_or (fs : FileSystem) (name : String) :
    NameMap.get? name fs.here.files
      = (((fs.localTree.resolve fs.place).bind
          (fun sub => NameMap.get? name sub.files.reverse)).map .localFile).or
        (((fs.permanentTree.resolve fs.place).bind
          (fun sub => NameMap.get? name sub.files.reverse)).map .permanentFile) := by
  rw [here, view, View.get?_files_ofLayers, View.get?_reverse_fileEntries,
    View.get?_reverse_fileEntries]
  rfl

/-- A file of the local tree is seen as a local one. -/
theorem exists_localFile_here {fs : FileSystem} {name : String}
    (h : (fs.localTree.fileAt? fs.place name).isSome = true) :
    ∃ text, NameMap.get? name fs.here.files = some (.localFile text) := by
  rw [get?_here_eq_or]
  rw [Dir.fileAt?_eq_bind] at h
  cases hd : fs.localTree.resolve fs.place with
  | none => simp [hd] at h
  | some d =>
    rw [hd, Option.bind_some, ← NameMap.isSome_get?_reverse] at h
    rcases Option.isSome_iff_exists.mp h with ⟨text, htext⟩
    exact ⟨text, by simp [htext]⟩

/-- A file is seen as a permanent one if the permanent tree has it and the local
    tree has none of its name. -/
theorem get?_here_eq_permanent_iff {fs : FileSystem} (hdistinct : fs.permanentTree.Distinct)
    {name : String} {content : FileContent} :
    NameMap.get? name fs.here.files = some (.permanentFile content)
      ↔ fs.localTree.fileAt? fs.place name = none
        ∧ fs.permanentTree.fileAt? fs.place name = some content := by
  cases hl : fs.localTree.fileAt? fs.place name with
  | some text =>
    have hsome : (fs.localTree.fileAt? fs.place name).isSome = true := Option.isSome_of_eq_some hl
    rcases exists_localFile_here hsome with ⟨last, hlast⟩
    simp [hlast]
  | none =>
    have hp : (fs.permanentTree.resolve fs.place).bind
        (fun sub => NameMap.get? name sub.files.reverse)
          = fs.permanentTree.fileAt? fs.place name := by
      rw [Dir.fileAt?_eq_bind]
      cases hd : fs.permanentTree.resolve fs.place with
      | none => rfl
      | some d =>
        cases hdistinct.resolve hd with
        | intro _ hfiles _ _ => exact NameMap.get?_reverse hfiles name
    have hlocal : (fs.localTree.resolve fs.place).bind
        (fun sub => NameMap.get? name sub.files.reverse) = none := by
      rw [Dir.fileAt?_eq_bind] at hl
      cases hd : fs.localTree.resolve fs.place with
      | none => rfl
      | some d =>
        rw [hd, Option.bind_some] at hl
        exact NameMap.get?_reverse_eq_none hl
    rw [get?_here_eq_or, hlocal, hp]
    simp

end FileSystem

namespace Session

/-- The path that a line asks for: it shows one file, and the file is seen as a
    permanent one whose content is deferred. -/
def wanted? (s : Session) (line : String) : Option String :=
  match tokenize line with
  | ["cat", name] =>
    match NameMap.get? name s.fileSystem.here.files with
    | some (.permanentFile (.deferred path)) => some path
    | _ => none
  | _ => none

/-- The lines of a run, each with the session in which it is run. -/
def stages (provider : Option Content.Provider) (s : Session) :
    List String → List (Session × String)
  | [] => []
  | line :: rest => (s, line) :: stages provider ((s.exec line).run provider).2 rest

/-- The paths that a provider is asked for in a run, first one first. -/
def asked (ask : Content.Provider) (s : Session) (lines : List String) : List String :=
  (s.stages (some ask) lines).flatMap (fun stage => (stage.1.exec stage.2).requests)

theorem wanted?_eq_some_iff {s : Session} {line path : String} :
    s.wanted? line = some path ↔ ∃ name, tokenize line = ["cat", name]
      ∧ NameMap.get? name s.fileSystem.here.files = some (.permanentFile (.deferred path)) := by
  unfold wanted?
  constructor
  · intro h
    split at h
    · rename_i name hwords
      split at h
      · rename_i found hfile
        exact ⟨name, hwords, by rw [hfile, Option.some.inj h]⟩
      · exact absurd h (by simp)
    · exact absurd h (by simp)
  · rintro ⟨name, hwords, hfile⟩
    simp only [hwords, hfile]

/-! ### One line -/

theorem requests_fileText (s : Session) (name : String) :
    (s.fileText name).requests = match NameMap.get? name s.fileSystem.here.files with
      | some (.permanentFile (.deferred path)) => [path]
      | _ => [] := by
  unfold fileText
  cases NameMap.get? name s.fileSystem.here.files with
  | none => rfl
  | some ref =>
    cases ref with
    | localFile text => rfl
    | permanentFile content => cases content <;> rfl

-- No other command waits for anything.
theorem requests_perform {command : Command} (h : command ≠ .cat) (s : Session)
    (args : List String) : (s.perform command args).requests = [] := by
  cases command <;> first | rfl | exact absurd rfl h

-- And no words but these two call the one that may.
theorem requests_execWords {words : List String} (h : ∀ name, words ≠ ["cat", name])
    (s : Session) : (s.execWords words).requests = [] := by
  cases words with
  | nil => rfl
  | cons word args =>
    cases hname : Command.ofName? word with
    | none =>
      simp only [execWords, hname]
      rfl
    | some command =>
      by_cases harity : command.arity.accepts args.length = true
      · simp only [execWords, hname, if_pos harity]
        refine requests_perform (fun hcat => ?_) s args
        rw [hcat] at hname harity
        have hone : args.length = 1 := beq_iff_eq.mp harity
        rcases List.length_eq_one_iff.mp hone with ⟨name, hargs⟩
        exact h name (by rw [eq_name_of_ofName? hname, hargs]; rfl)
      · simp only [execWords, hname, if_neg harity]
        rfl

/-- A line asks for what is wanted, once, and for nothing else. -/
theorem requests_exec (s : Session) (line : String) :
    (s.exec line).requests = (s.wanted? line).toList := by
  by_cases hcat : ∃ name, tokenize line = ["cat", name]
  · rcases hcat with ⟨name, hwords⟩
    rw [exec_eq_perform .cat hwords rfl, perform, Step.requests_map, requests_fileText,
      List.headD_cons]
    simp only [wanted?, hwords]
    split <;> rfl
  · have hnone : s.wanted? line = none := by
      rw [Option.eq_none_iff_forall_ne_some]
      intro path hpath
      rcases wanted?_eq_some_iff.mp hpath with ⟨name, hwords, _⟩
      exact hcat ⟨name, hwords⟩
    rw [hnone, exec, requests_execWords (fun name hwords => hcat ⟨name, hwords⟩)]
    rfl

-- A line that asks for nothing is answered at once.
theorem run_exec_of_wanted?_eq_none {s : Session} {line : String} (h : s.wanted? line = none)
    (p q : Option Content.Provider) : (s.exec line).run p = (s.exec line).run q := by
  refine Step.run_congr (fun path hmem => ?_)
  rw [requests_exec, h] at hmem
  exact absurd hmem List.not_mem_nil

-- A line that asks shows what comes, and changes nothing.
theorem run_exec_of_wanted? {s : Session} {line path : String} (h : s.wanted? line = some path)
    (provider : Option Content.Provider) :
    (s.exec line).run provider
      = (shown ((Content.fetchText provider path).mapError .content), s) := by
  rcases wanted?_eq_some_iff.mp h with ⟨name, hwords, hfile⟩
  rw [exec_cat provider s hwords, fileText_of_permanent provider hfile]
  rfl

/-- No answer changes a session. -/
theorem run_exec_snd (s : Session) (line : String) (p q : Option Content.Provider) :
    ((s.exec line).run p).2 = ((s.exec line).run q).2 := by
  cases h : s.wanted? line with
  | none => rw [run_exec_of_wanted?_eq_none h p q]
  | some path => rw [run_exec_of_wanted? h p, run_exec_of_wanted? h q]

/-! ### A run -/

/-- The sessions of a run do not depend on the provider. -/
theorem stages_eq (p q : Option Content.Provider) (s : Session) (lines : List String) :
    s.stages p lines = s.stages q lines := by
  induction lines generalizing s with
  | nil => rfl
  | cons line rest ih => rw [stages, stages, run_exec_snd s line p q, ih]

theorem after_lines_eq (p q : Option Content.Provider) (s : Session) (lines : List String) :
    s.after p (lines.map .line) = s.after q (lines.map .line) := by
  induction lines generalizing s with
  | nil => rfl
  | cons line rest ih =>
    rw [List.map_cons, after_line, after_line, run_exec_snd s line p q, ih]

theorem asked_cons (ask : Content.Provider) (s : Session) (line : String) (rest : List String) :
    s.asked ask (line :: rest)
      = (s.exec line).requests ++ (((s.exec line).run (some ask)).2).asked ask rest := by
  rw [asked, stages, List.flatMap_cons]
  rfl

/-- Only the answers to the requests of a run have an influence on it. -/
theorem exchanges_congr {ask other : Content.Provider} {s : Session} {lines : List String}
    (h : ∀ path ∈ s.asked ask lines, other path = ask path) :
    s.exchanges (some other) lines = s.exchanges (some ask) lines := by
  induction lines generalizing s with
  | nil => rfl
  | cons line rest ih =>
    rw [asked_cons] at h
    have hline : (s.exec line).run (some other) = (s.exec line).run (some ask) := by
      refine Step.run_congr (fun path hmem => ?_)
      exact congrArg Content.textOf (h path (List.mem_append_left _ hmem))
    have hrest := ih (fun path hmem => h path (List.mem_append_right _ hmem))
    rw [exchanges, exchanges, hline, hrest]

-- What is shown in a run, line by line in the sessions that it passes through.
theorem exchanges_eq_map (provider q : Option Content.Provider) (s : Session)
    (lines : List String) :
    s.exchanges provider lines = (s.stages q lines).map (fun stage =>
      { line := stage.2, outcome := ((stage.1.exec stage.2).run provider).1 }) := by
  induction lines generalizing s with
  | nil => rfl
  | cons line rest ih =>
    rw [exchanges, stages, List.map_cons, ih, run_exec_snd s line provider q]

/-- The requests of a run, and what comes of them. A provider is asked for
    exactly the paths that the lines want, in their order. A line wants a path if
    it shows one file and that file is seen as a permanent one with this deferred
    path, which is to say that the permanent tree has it so and the local tree
    has none of its name. What is shown then is the body of an answer whose
    status is in the two hundreds, and else a failure; without a provider it is
    another failure. No other line has anything to do with the provider, and so
    the sessions of a run are the same with any provider and with none, and the
    answers to other requests have no influence. -/
theorem asked_eq_wanted (ask : Content.Provider) (s : Session) (lines : List String) :
    let stages := s.stages (some ask) lines
    s.asked ask lines = stages.filterMap (fun stage => stage.1.wanted? stage.2)
      ∧ (∀ (t : Session) (line path : String), t.wanted? line = some path
        ↔ ∃ name, tokenize line = ["cat", name]
          ∧ NameMap.get? name t.fileSystem.here.files = some (.permanentFile (.deferred path)))
      ∧ (∀ (t : Session) (line path : String), t.fileSystem.permanentTree.Distinct →
        (t.wanted? line = some path ↔ ∃ name, tokenize line = ["cat", name]
          ∧ t.fileSystem.localTree.fileAt? t.fileSystem.place name = none
          ∧ t.fileSystem.permanentTree.fileAt? t.fileSystem.place name = some (.deferred path)))
      ∧ (∀ provider, s.exchanges provider lines = stages.map (fun stage =>
            { line := stage.2, outcome := ((stage.1.exec stage.2).run provider).1 })
          ∧ s.after provider (lines.map .line) = s.after (some ask) (lines.map .line))
      ∧ (∀ (t : Session) (line path : String), t.wanted? line = some path →
        ((t.exec line).run (some ask)).1 = (match ask path with
          | .ok response =>
            if 200 ≤ response.status ∧ response.status < 300 then .success response.body
            else .failure ("Error fetching file: " ++ toString response.status)
          | .error message => .failure ("Error fetching file: " ++ message))
        ∧ ((t.exec line).run none).1
          = .failure "Error fetching file: no content provider configured")
      ∧ (∀ (t : Session) (line : String), t.wanted? line = none →
        (t.exec line).run none = (t.exec line).run (some ask))
      ∧ (∀ other : Content.Provider, (∀ path ∈ s.asked ask lines, other path = ask path) →
        s.exchanges (some other) lines = s.exchanges (some ask) lines) := by
  intro stages
  refine ⟨?asked, fun t line path => wanted?_eq_some_iff, ?trees, fun provider => ?sessions,
    fun t line path h => ⟨?answer, ?missing⟩, fun t line h => run_exec_of_wanted?_eq_none h _ _,
    fun other h => exchanges_congr h⟩
  case asked =>
    simp only [asked, requests_exec, stages, List.filterMap_eq_flatMap_toList]
  case trees =>
    intro t line path hdistinct
    rw [wanted?_eq_some_iff]
    simp only [FileSystem.get?_here_eq_permanent_iff hdistinct]
  case sessions =>
    exact ⟨exchanges_eq_map provider (some ask) s lines,
      after_lines_eq provider (some ask) s lines⟩
  case answer =>
    rw [run_exec_of_wanted? h]
    cases hanswer : ask path with
    | error message => simp only [Content.fetchText, hanswer]; rfl
    | ok response =>
      have hsuccess : response.isSuccess = true
          ↔ 200 ≤ response.status ∧ response.status < 300 := by
        rw [Content.Response.isSuccess, Bool.and_eq_true, decide_eq_true_eq, decide_eq_true_eq]
      by_cases hok : 200 ≤ response.status ∧ response.status < 300
      · simp only [Content.fetchText, hanswer, Content.textOf, if_pos (hsuccess.mpr hok),
          if_pos hok]
        rfl
      · simp only [Content.fetchText, hanswer, Content.textOf,
          if_neg (fun hc => hok (hsuccess.mp hc)), if_neg hok]
        rfl
  case missing =>
    rw [run_exec_of_wanted? h]
    rfl

/-- Of two deferred files one has a local file of its name in front of it, so the
    other is asked for alone; and a status outside the two hundreds is told. -/
theorem asked_eq_wanted_shadowed :
    let ask : Content.Provider := fun path => .ok { status := 404, path := path }
    let permanentTree : Dir FileContent := { files := [("a", .deferred "p"), ("b", .deferred "q")] }
    let localTree : Dir String := { files := [("b", "mine")] }
    let s : Session := { fileSystem := { permanentTree := permanentTree, localTree := localTree } }
    s.asked ask ["cat b", "cat a b", "cat a"] = ["p"]
      ∧ s.wanted? "cat a" = some "p"
      ∧ ((s.exec "cat a").run (some ask)).1 = .failure "Error fetching file: 404" := by
  intro ask permanentTree localTree s
  have hwanted : s.wanted? "cat a" = some "p" := by decide +kernel
  have hrun := asked_eq_wanted ask s ["cat b", "cat a b", "cat a"]
  refine ⟨hrun.1.trans (by decide +kernel), hwanted, ?_⟩
  rw [(hrun.2.2.2.2.1 s "cat a" "p" hwanted).1]
  decide +kernel

end Session

end StrataShell
