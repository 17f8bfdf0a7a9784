import StrataShell.Proofs.Requests

/-!
# Two Shells in One

The commands of the file system and the commands of the variables share a
session, and they might as well be two programs. A line of either kind reads and
writes its own part of the session only, so lines of the two kinds can be mixed
in any order: each answers as if the others were not there.

That a line has nothing to do with a part of the session is said by an equation.
The part is exchanged for another one, once before the line and once after it,
and the two come to the same. Since nothing was assumed of the other part, the
line has not looked at it; since it is still there afterwards, the line has not
written it. `Overlooks` is this equation, and it is proved of a whole line by
looking at the one command that the line runs.

## Main definitions

* `Command.fileCommands`, `Command.variableCommands`: The two kinds.
* `Session.callsOneOf`: A line begins with the name of one of some commands.
* `Session.answersTo`: The exchanges of these lines.
* `Session.Overlooks`: A line has nothing to do with a change of the session.
* `Interleaving`: Two lists mixed into one.

## Theorems

* `overlooks_of_perform`: What a line overlooks is settled by its command.
* `overlooks_vars`, `overlooks_files`: Lines of either kind overlook the other's
  part of the session.
* `exchanges_overlooked`: A run answers the same, and carries the change along.
* `kinds_independent`: Mixed lines answer as if each kind were alone.
-/

namespace StrataShell

/-- Two lists mixed into one, each in its own order. -/
inductive Interleaving {α : Type} : List α → List α → List α → Prop
  | nil : Interleaving [] [] []
  | left {a : α} {first second mixed : List α} (h : Interleaving first second mixed) :
      Interleaving (a :: first) second (a :: mixed)
  | right {a : α} {first second mixed : List α} (h : Interleaving first second mixed) :
      Interleaving first (a :: second) (a :: mixed)

namespace Command

/-- The commands of the file system. -/
def fileCommands : List Command :=
  [.ls, .mkdir, .touch, .cd, .cat]

/-- The commands of the variables. -/
def variableCommands : List Command :=
  [.set, .print, .echo]

end Command

namespace Session

/-- A line begins with the name of one of some commands, be its arguments right
    or wrong. -/
def callsOneOf (commands : List Command) (line : String) : Bool :=
  commands.any (fun command => calls command.name line)

/-- The exchanges of those lines that call one of some commands. -/
def answersTo (commands : List Command) (xs : List Exchange) : List Exchange :=
  xs.filter (fun x => callsOneOf commands x.line)

/-- The session with other variables. -/
def replaceVars (vars : Variables) (s : Session) : Session :=
  { s with vars := vars }

/-- The session with another file system. -/
def replaceFiles (fs : FileSystem) (s : Session) : Session :=
  { s with fileSystem := fs }

/-- A line of words has nothing to do with a change of the session: it does the
    same before the change and after it. -/
def Overlooks (change : Session → Session) (s : Session) (words : List String) : Prop :=
  (change s).execWords words = (s.execWords words).map (fun result => (result.1, change result.2))

variable {s : Session} {change : Session → Session} {line : String}

theorem eq_of_name_eq {command other : Command} (h : command.name = other.name) :
    command = other := by
  have hfound := Command.ofName?_name command
  rw [h, Command.ofName?_name, Option.some.injEq] at hfound
  exact hfound.symm

-- The first word of a line is the name of one command only.
theorem mem_of_callsOneOf {commands : List Command} (h : callsOneOf commands line = true)
    {command : Command} {args : List String} (hwords : tokenize line = command.name :: args) :
    command ∈ commands := by
  rcases List.any_eq_true.mp h with ⟨other, hmem, hcalls⟩
  rw [calls, hwords, List.head?_cons, decide_eq_true_eq, Option.some.injEq] at hcalls
  exact eq_of_name_eq hcalls ▸ hmem

/-! ### One line -/

/-- What a line overlooks is settled by the command that it runs. Without a
    command, or with the wrong number of arguments, it looks at nothing. -/
theorem overlooks_of_perform {words : List String}
    (h : ∀ (command : Command) (args : List String), words = command.name :: args →
      command.arity.accepts args.length = true → (change s).perform command args
        = (s.perform command args).map (fun result => (result.1, change result.2))) :
    Overlooks change s words := by
  cases words with
  | nil => rfl
  | cons word args =>
    cases hname : Command.ofName? word with
    | none =>
      simp only [Overlooks, execWords, hname]
      rfl
    | some command =>
      have hword := eq_name_of_ofName? hname
      simp only [Overlooks, execWords, hname]
      by_cases harity : command.arity.accepts args.length = true
      · rw [if_pos harity, if_pos harity]
        exact h command args (by rw [hword]) harity
      · rw [if_neg harity, if_neg harity]
        rfl

theorem run_overlooked (provider : Option Content.Provider)
    (h : Overlooks change s (tokenize line)) :
    ((change s).exec line).run provider
      = (((s.exec line).run provider).1, change ((s.exec line).run provider).2) := by
  rw [exec, h, Step.run_map]
  rfl

theorem requests_overlooked (h : Overlooks change s (tokenize line)) :
    ((change s).exec line).requests = (s.exec line).requests := by
  rw [exec, h, Step.requests_map]
  rfl

-- A file system is as it is, granted or refused, whatever the variables are.
theorem withFileSystem_replaceVars (vars : Variables) (s : Session)
    (result : Except FileSystem.Error FileSystem) :
    (replaceVars vars s).withFileSystem result
      = ((s.withFileSystem result).1, replaceVars vars (s.withFileSystem result).2) := by
  cases result <;> rfl

theorem changeDir_replaceVars (vars : Variables) (s : Session) (name : String) :
    (replaceVars vars s).changeDir name
      = ((s.changeDir name).1, replaceVars vars (s.changeDir name).2) := by
  have hfiles : (replaceVars vars s).fileSystem = s.fileSystem := rfl
  rw [changeDir, changeDir, hfiles]
  cases s.fileSystem.cd name with
  | ok fs => rfl
  | error cause => cases cause <;> rfl

/-- The commands of the file system have nothing to do with the variables. -/
theorem perform_replaceVars {command : Command} (h : command ∈ Command.fileCommands)
    (vars : Variables) (s : Session) (args : List String) :
    (replaceVars vars s).perform command args
      = (s.perform command args).map (fun result => (result.1, replaceVars vars result.2)) := by
  have hfiles : (replaceVars vars s).fileSystem = s.fileSystem := rfl
  cases command with
  | ls => rfl
  | mkdir => simp only [perform, hfiles, withFileSystem_replaceVars, Step.map]
  | touch => simp only [perform, hfiles, withFileSystem_replaceVars, Step.map]
  | cd => simp only [perform, changeDir_replaceVars, Step.map]
  | cat =>
    have htext : (replaceVars vars s).fileText (args.headD "") = s.fileText (args.headD "") := rfl
    simp only [perform, htext, Step.map_map]
  | help | quit | clear | set | print | echo | source | run => exact absurd h (by decide)

/-- The commands of the variables have nothing to do with the file system. -/
theorem perform_replaceFiles {command : Command} (h : command ∈ Command.variableCommands)
    (fs : FileSystem) (s : Session) (args : List String) :
    (replaceFiles fs s).perform command args
      = (s.perform command args).map (fun result => (result.1, replaceFiles fs result.2)) := by
  cases command with
  | set => cases args <;> rfl
  | print => rfl
  | echo => rfl
  | help | quit | clear | ls | mkdir | touch | cd | cat | source | run => exact absurd h (by decide)

theorem overlooks_vars (h : callsOneOf Command.fileCommands line = true) (vars : Variables)
    (s : Session) : Overlooks (replaceVars vars) s (tokenize line) :=
  overlooks_of_perform (fun _ args hwords _ =>
    perform_replaceVars (mem_of_callsOneOf h hwords) vars s args)

theorem overlooks_files (h : callsOneOf Command.variableCommands line = true) (fs : FileSystem)
    (s : Session) : Overlooks (replaceFiles fs) s (tokenize line) :=
  overlooks_of_perform (fun _ args hwords _ =>
    perform_replaceFiles (mem_of_callsOneOf h hwords) fs s args)

-- A part that is exchanged for itself is the same after the line.
theorem vars_of_fileLine (provider : Option Content.Provider)
    (h : callsOneOf Command.fileCommands line = true) :
    ((s.exec line).run provider).2.vars = s.vars :=
  congrArg (fun result => result.2.vars) (run_overlooked provider (overlooks_vars h s.vars s))

theorem fileSystem_of_variableLine (provider : Option Content.Provider)
    (h : callsOneOf Command.variableCommands line = true) :
    ((s.exec line).run provider).2.fileSystem = s.fileSystem :=
  congrArg (fun result => result.2.fileSystem)
    (run_overlooked provider (overlooks_files h s.fileSystem s))

/-! ### A run -/

variable {lines onFiles onVars : List String}

/-- A run of lines that overlook a change answers the same after it, and carries
    the change along. -/
theorem exchanges_overlooked (provider : Option Content.Provider)
    (h : ∀ line ∈ lines, ∀ t : Session, Overlooks change t (tokenize line)) (s : Session) :
    (change s).exchanges provider lines = s.exchanges provider lines
      ∧ (change s).after provider (lines.map .line)
        = change (s.after provider (lines.map .line)) := by
  induction lines generalizing s with
  | nil => exact ⟨rfl, rfl⟩
  | cons line rest ih =>
    have hline := run_overlooked provider (h line List.mem_cons_self s)
    have hrest := ih (fun other hmem => h other (List.mem_cons_of_mem line hmem))
      ((s.exec line).run provider).2
    rw [exchanges, exchanges, List.map_cons, after_line, after_line, hline]
    exact ⟨by rw [hrest.1], hrest.2⟩

-- It also asks for the same contents.
theorem asked_overlooked (ask : Content.Provider)
    (h : ∀ line ∈ lines, ∀ t : Session, Overlooks change t (tokenize line)) (s : Session) :
    (change s).asked ask lines = s.asked ask lines := by
  induction lines generalizing s with
  | nil => rfl
  | cons line rest ih =>
    have hline := h line List.mem_cons_self s
    rw [asked_cons, asked_cons, requests_overlooked hline, run_overlooked (some ask) hline,
      ih (fun other hmem => h other (List.mem_cons_of_mem line hmem))]

/-- What a run of lines of the file system makes of the file system, and what it
    answers and asks for, depends on the file system alone. -/
theorem exchanges_of_fileSystem_eq (provider : Option Content.Provider)
    (h : ∀ line ∈ onFiles, callsOneOf Command.fileCommands line = true) {t : Session}
    (hfiles : t.fileSystem = s.fileSystem) :
    t.exchanges provider onFiles = s.exchanges provider onFiles
      ∧ (t.after provider (onFiles.map .line)).fileSystem
        = (s.after provider (onFiles.map .line)).fileSystem
      ∧ ∀ ask, t.asked ask onFiles = s.asked ask onFiles := by
  have ht : t = replaceVars t.vars s := by rw [replaceVars, ← hfiles]
  have hlines : ∀ line ∈ onFiles, ∀ u : Session, Overlooks (replaceVars t.vars) u (tokenize line) :=
    fun line hmem => overlooks_vars (h line hmem) t.vars
  have hrun := exchanges_overlooked provider hlines s
  have hasked := fun ask => asked_overlooked ask hlines s
  rw [← ht] at hrun hasked
  exact ⟨hrun.1, by rw [hrun.2, replaceVars], hasked⟩

/-- What a run of lines of the variables makes of the variables, and what it
    answers, depends on the variables alone. -/
theorem exchanges_of_vars_eq (provider : Option Content.Provider)
    (h : ∀ line ∈ onVars, callsOneOf Command.variableCommands line = true) {t : Session}
    (hvars : t.vars = s.vars) :
    t.exchanges provider onVars = s.exchanges provider onVars
      ∧ (t.after provider (onVars.map .line)).vars
        = (s.after provider (onVars.map .line)).vars := by
  have ht : t = replaceFiles t.fileSystem s := by rw [replaceFiles, ← hvars]
  have hrun := exchanges_overlooked provider
    (fun line hmem => overlooks_files (h line hmem) t.fileSystem) s
  rw [← ht] at hrun
  exact ⟨hrun.1, by rw [hrun.2, replaceFiles]⟩

-- A line is of one kind at most.
theorem not_callsOneOf (h : callsOneOf Command.fileCommands line = true) :
    callsOneOf Command.variableCommands line = false := by
  rw [Bool.eq_false_iff]
  intro hvar
  rcases List.any_eq_true.mp h with ⟨command, hmem, hcalls⟩
  rcases List.any_eq_true.mp hvar with ⟨other, hother, hcalls'⟩
  rw [calls, decide_eq_true_eq] at hcalls hcalls'
  have hsame : command = other := eq_of_name_eq (Option.some.inj (hcalls.symm.trans hcalls'))
  revert hmem hother
  rw [hsame]
  cases other <;> decide

/-- A line of the variables asks for nothing. -/
theorem requests_variableLine (h : callsOneOf Command.variableCommands line = true)
    (s : Session) : (s.exec line).requests = [] := by
  refine requests_execWords (fun name hwords => ?_) s
  have hcat : Command.cat ∈ Command.variableCommands := mem_of_callsOneOf h hwords
  exact absurd hcat (by decide)

theorem answersTo_of_calls {commands : List Command} (h : callsOneOf commands line = true)
    (provider : Option Content.Provider) (s : Session) (rest : List String) :
    answersTo commands (s.exchanges provider (line :: rest))
      = { line := line, outcome := ((s.exec line).run provider).1 }
        :: answersTo commands (((s.exec line).run provider).2.exchanges provider rest) := by
  rw [exchanges, answersTo, List.filter_cons, if_pos h]
  rfl

theorem answersTo_of_not_calls {commands : List Command} (h : callsOneOf commands line = false)
    (provider : Option Content.Provider) (s : Session) (rest : List String) :
    answersTo commands (s.exchanges provider (line :: rest))
      = answersTo commands (((s.exec line).run provider).2.exchanges provider rest) := by
  rw [exchanges, answersTo, List.filter_cons, if_neg (Bool.eq_false_iff.mp h)]
  rfl

/-- Lines of the two kinds that are mixed in any order answer, each kind by
    itself, as if the other were not there. The file system is in the end the one
    that the lines of the file system lead to by themselves, and the variables
    are those of the lines of the variables. The contents that are asked for are
    those that the lines of the file system ask for by themselves. -/
theorem kinds_independent (provider : Option Content.Provider) (s : Session)
    (hfiles : ∀ line ∈ onFiles, callsOneOf Command.fileCommands line = true)
    (hvars : ∀ line ∈ onVars, callsOneOf Command.variableCommands line = true)
    (hmixed : Interleaving onFiles onVars lines) :
    answersTo Command.fileCommands (s.exchanges provider lines) = s.exchanges provider onFiles
      ∧ answersTo Command.variableCommands (s.exchanges provider lines)
        = s.exchanges provider onVars
      ∧ s.after provider (lines.map .line)
        = { fileSystem := (s.after provider (onFiles.map .line)).fileSystem
            vars := (s.after provider (onVars.map .line)).vars }
      ∧ ∀ ask, s.asked ask lines = s.asked ask onFiles := by
  induction hmixed generalizing s with
  | nil => exact ⟨rfl, rfl, rfl, fun _ => rfl⟩
  | @left line first second mixed _ ih =>
    -- The lines of the variables find the variables that were there before this line.
    have hline := hfiles line List.mem_cons_self
    have hkept := exchanges_of_vars_eq provider hvars (vars_of_fileLine (s := s) provider hline)
    rcases ih ((s.exec line).run provider).2
      (fun other hmem => hfiles other (List.mem_cons_of_mem line hmem)) hvars with
      ⟨hfirst, hsecond, hafter, hasked⟩
    refine ⟨?_, ?_, ?_, fun ask => ?_⟩
    · rw [answersTo_of_calls hline, hfirst, exchanges]
    · rw [answersTo_of_not_calls (not_callsOneOf hline), hsecond, hkept.1]
    · rw [List.map_cons, List.map_cons, after_line, after_line, hafter, hkept.2]
    · rw [asked_cons, asked_cons, run_exec_snd s line (some ask) provider, hasked ask]
  | @right line first second mixed _ ih =>
    have hline := hvars line List.mem_cons_self
    have hother : callsOneOf Command.fileCommands line = false := by
      rw [Bool.eq_false_iff]
      intro hfile
      exact Bool.false_ne_true ((not_callsOneOf hfile).symm.trans hline)
    have hkept := exchanges_of_fileSystem_eq provider hfiles
      (fileSystem_of_variableLine (s := s) provider hline)
    rcases ih ((s.exec line).run provider).2 hfiles
      (fun other hmem => hvars other (List.mem_cons_of_mem line hmem)) with
      ⟨hfirst, hsecond, hafter, hasked⟩
    refine ⟨?_, ?_, ?_, fun ask => ?_⟩
    · rw [answersTo_of_not_calls hother, hfirst, hkept.1]
    · rw [answersTo_of_calls hline, hsecond, exchanges]
    · rw [List.map_cons, List.map_cons, after_line, after_line, hafter, hkept.2.1]
    · rw [asked_cons, requests_variableLine hline, List.nil_append,
        run_exec_snd s line (some ask) provider, hasked ask, hkept.2.2 ask]

/-- Lines that make a directory, enter it and fail to show a file of it, with
    lines in between that give a variable a value, fail to print one, and echo. -/
theorem kinds_independent_mixed :
    let onFiles := ["mkdir x", "cd x", "cat note"]
    let onVars := ["set X 1", "print Y", "echo $X"]
    let lines := ["set X 1", "mkdir x", "cd x", "print Y", "echo $X", "cat note"]
    let s : Session := { fileSystem := { permanentTree := {} } }
    (∀ line ∈ onFiles, callsOneOf Command.fileCommands line = true)
      ∧ (∀ line ∈ onVars, callsOneOf Command.variableCommands line = true)
      ∧ Interleaving onFiles onVars lines
      ∧ (s.after none (lines.map .line)).fileSystem.cwd = "/x"
      ∧ (s.after none (lines.map .line)).vars = [("X", "1")]
      ∧ (answersTo Command.variableCommands (s.exchanges none lines)).map (·.outcome)
        = [.silent, .failure "Variable does not exist", .success "1"] := by
  intro onFiles onVars lines s
  have hfiles : ∀ line ∈ onFiles, callsOneOf Command.fileCommands line = true := by decide +kernel
  have hvars : ∀ line ∈ onVars, callsOneOf Command.variableCommands line = true := by
    decide +kernel
  have hmixed : Interleaving onFiles onVars lines :=
    .right (.left (.left (.right (.right (.left .nil)))))
  rcases kinds_independent none s hfiles hvars hmixed with ⟨_, hanswers, hafter, _⟩
  refine ⟨hfiles, hvars, hmixed, ?_, ?_, ?_⟩
  · rw [hafter]
    decide +kernel
  · rw [hafter]
    decide +kernel
  · rw [hanswers]
    decide +kernel

end Session

end StrataShell
