import StrataShell.Proofs.FileSystem
import StrataShell.Session

/-!
# What a Line Can Do

Every line of input has one of six effects. It fails or answers and changes
nothing; it asks the surroundings to end the dialogue or to wipe the screen; it
gives a variable a value; or it makes one call of the file system that
succeeds. `Session.Does` lists them with everything that is known in each case,
and `exec_does` says that the list is complete. What is to be shown of all
lines is then shown for six cases instead of for every command with its checks.

Of the calls of the file system, three can change it. A call that is refused
changes nothing, so the file system after a call is a function of the one
before: `FileSystem.afterCall`.

## Main definitions

* `Call`: A call of the file system, or a reading of it.
* `Call.ofWords?`: The call by which a line may change the file system.
* `FileSystem.afterCall`: The file system after a call.
* `Call.creation?`: The entry that a call asks for.
* `Session.Does`: The effects that a line of words can have.

## Theorems

* `answer_creation`: A call that succeeds makes the entry it asks for.
* `exec_eq_perform`: A line that calls a command as it should runs it.
* `exec_does`: A line has one of these effects.
* `exec_frame`: A line that fails changes nothing, a line that changes something
  says nothing, and each part of a session is changed by its own commands only.
-/

namespace StrataShell

/-- A call of the file system, or a reading of it. -/
inductive Call
  | mkdir (name : String)
  | touch (name : String)
  | cd (name : String)
  | ls
  | view (path : String)
  | read (name : String)
  deriving DecidableEq

/-- The call by which a line of words may change the file system. -/
def Call.ofWords? : List String → Option Call
  | ["mkdir", name] => some (.mkdir name)
  | ["touch", name] => some (.touch name)
  | ["cd", name] => some (.cd name)
  | _ => none

/-- A call asks for a change, and not to be told something. -/
def Call.asks : Call → Bool
  | .mkdir _ | .touch _ | .cd _ => true
  | .ls | .view _ | .read _ => false

namespace FileSystem

/-- The file system that a call leads to, or why the call is refused. A call
    that only reads leads nowhere else. -/
def answer (fs : FileSystem) : Call → Except Error FileSystem
  | .mkdir name => fs.mkdir name
  | .touch name => fs.touch name
  | .cd name => fs.cd name
  | .ls | .view _ | .read _ => .ok fs

/-- The file system after a call: a refused call leaves it as it was. -/
def afterCall (fs : FileSystem) (c : Call) : FileSystem :=
  match fs.answer c with
  | .ok fs' => fs'
  | .error _ => fs

end FileSystem

theorem FileSystem.answer_of_not_asks {c : Call} (h : ¬ c.asks = true) (fs : FileSystem) :
    fs.answer c = .ok fs := by
  cases c <;> first | rfl | exact absurd rfl h

/-- The creation that a call asks for, if it asks for one, made at a place. -/
def Call.creation? (place : List String) : Call → Option Creation
  | .mkdir name => some (.dir place name)
  | .touch name => some (.file place name)
  | .cd _ | .ls | .view _ | .read _ => none

/-- A call that succeeds makes the entry it asks for and no other. -/
theorem FileSystem.answer_creation {fs fs' : FileSystem} {c : Call} (h : fs.answer c = .ok fs') :
    match c.creation? fs.place with
    | none => fs'.permanentTree = fs.permanentTree ∧ fs'.localTree = fs.localTree
    | some made => fs' = fs.withCreation made ∧ made.Grows fs.localTree fs'.localTree := by
  cases c with
  | mkdir name =>
    rcases mkdir_eq_ok_iff.mp h with ⟨_, _, _, hfs⟩
    exact ⟨hfs, grows_of_mkdir h⟩
  | touch name =>
    rcases touch_eq_ok_iff.mp h with ⟨_, _, _, hfs⟩
    exact ⟨hfs, grows_of_touch h⟩
  | cd name =>
    rcases cd_eq_ok_iff.mp h with ⟨_, _, hfs⟩ | ⟨_, _, hfs⟩
    · exact ⟨by rw [hfs], by rw [hfs]⟩
    · exact ⟨by rw [hfs], by rw [hfs]⟩
  | ls | view path | read name =>
    rw [← Except.ok.inj h]
    exact ⟨rfl, rfl⟩

/-- No call writes the permanent tree. -/
theorem FileSystem.answer_permanentTree {fs fs' : FileSystem} {c : Call}
    (h : fs.answer c = .ok fs') : fs'.permanentTree = fs.permanentTree := by
  have hmade := answer_creation h
  revert hmade
  cases c.creation? fs.place with
  | none => exact And.left
  | some made =>
    rintro ⟨hfs, _⟩
    rw [hfs]
    rfl

namespace Session

/-- A line without consequences: it neither ends the dialogue nor wipes the
    screen, and no call that it makes of the file system succeeds. -/
structure Idle (s : Session) (words : List String) : Prop where
  quit : words.head? ≠ some "quit"
  clear : words.head? ≠ some "clear"
  call : ∀ c fs, Call.ofWords? words = some c → s.fileSystem.answer c ≠ .ok fs

/-- The effects that a line of words can have: its outcome and the session
    after it. -/
inductive Does (s : Session) : List String → Outcome → Session → Prop
  /-- A command failed, or none was found for the words. -/
  | failed (words : List String) (message : String) (h : s.Idle words) :
      Does s words (.failure message) s
  /-- A command answered that changes nothing. -/
  | answered (words : List String) (text : String) (h : s.Idle words)
      (hwords : Call.ofWords? words = none) : Does s words (.success text) s
  /-- There was no way up, which is told but is not a failure. -/
  | atRoot (h : s.fileSystem.place = []) :
      Does s ["cd", FileSystem.up] (.success FileSystem.Error.alreadyAtRoot.message) s
  /-- The dialogue is to end. -/
  | quit (args : List String) :
      Does s ("quit" :: args) { Outcome.success "Bye!" with effect := .quit } s
  /-- The screen is to be wiped. -/
  | clear (args : List String) :
      Does s ("clear" :: args) { Outcome.silent with effect := .clear } s
  /-- A variable was given a value. -/
  | set (name : String) (words : List String) :
      Does s ("set" :: name :: words) .silent
        { s with vars := NameMap.insert name (String.intercalate " " words) s.vars }
  /-- A call of the file system succeeded. -/
  | call (words : List String) (c : Call) (fs : FileSystem)
      (hwords : Call.ofWords? words = some c) (hanswer : s.fileSystem.answer c = .ok fs) :
      Does s words .silent { s with fileSystem := fs }

/-- The lines that may change the file system, by the call they make. -/
theorem ofWords?_eq_some_iff {words : List String} {c : Call} :
    Call.ofWords? words = some c ↔ ∃ name, (words = ["mkdir", name] ∧ c = .mkdir name)
      ∨ (words = ["touch", name] ∧ c = .touch name) ∨ (words = ["cd", name] ∧ c = .cd name) := by
  constructor
  · intro h
    unfold Call.ofWords? at h
    split at h
    · rename_i name
      exact ⟨name, Or.inl ⟨rfl, (Option.some.inj h).symm⟩⟩
    · rename_i name
      exact ⟨name, Or.inr (Or.inl ⟨rfl, (Option.some.inj h).symm⟩)⟩
    · rename_i name
      exact ⟨name, Or.inr (Or.inr ⟨rfl, (Option.some.inj h).symm⟩)⟩
    · exact absurd h (Option.some_ne_none c).symm
  · rintro ⟨name, ⟨hw, hc⟩ | ⟨hw, hc⟩ | ⟨hw, hc⟩⟩ <;> rw [hw, hc] <;> rfl

/-- A line that may change the file system begins with one of three words. -/
theorem mem_of_ofWords? {word : String} {args : List String} {c : Call}
    (h : Call.ofWords? (word :: args) = some c) : word ∈ ["mkdir", "touch", "cd"] := by
  rcases ofWords?_eq_some_iff.mp h with ⟨name, ⟨hw, _⟩ | ⟨hw, _⟩ | ⟨hw, _⟩⟩ <;>
    rw [(List.cons.inj hw).1] <;> decide

theorem ofWords?_eq_none {word : String} (args : List String)
    (h : word ∉ ["mkdir", "touch", "cd"]) : Call.ofWords? (word :: args) = none := by
  cases hc : Call.ofWords? (word :: args) with
  | none => rfl
  | some c => exact absurd (mem_of_ofWords? hc) h

-- All of the three calls take one argument.
theorem length_of_ofWords? {word : String} {args : List String} {c : Call}
    (h : Call.ofWords? (word :: args) = some c) : args.length = 1 := by
  rcases ofWords?_eq_some_iff.mp h with ⟨name, ⟨hw, _⟩ | ⟨hw, _⟩ | ⟨hw, _⟩⟩ <;>
    rw [(List.cons.inj hw).2] <;> rfl

/-- A line is without consequences if its first word is none of those that have
    any. -/
theorem idle_of_notMem (s : Session) {word : String} (args : List String)
    (h : word ∉ ["quit", "clear", "mkdir", "touch", "cd"]) : s.Idle (word :: args) where
  quit := fun hc => h (by rw [Option.some.inj hc]; decide)
  clear := fun hc => h (by rw [Option.some.inj hc]; decide)
  call := fun c fs hc => absurd (List.mem_append_right ["quit", "clear"] (mem_of_ofWords? hc)) h

/-- The same, for the words of a command that only answers. -/
theorem answered_does (s : Session) {word : String} (args : List String) (text : String)
    (h : word ∉ ["quit", "clear", "mkdir", "touch", "cd"]) :
    Does s (word :: args) (.success text) s := by
  refine Does.answered (word :: args) text (idle_of_notMem s args h) (ofWords?_eq_none args ?_)
  exact fun hmem => h (List.mem_append_right ["quit", "clear"] hmem)

/-- A line is without consequences if the call that it makes is refused. -/
theorem idle_of_refused {s : Session} {words : List String} {c : Call} {cause : FileSystem.Error}
    (hc : Call.ofWords? words = some c) (h : s.fileSystem.answer c = .error cause) :
    s.Idle words := by
  have hhead : words.head? ≠ some "quit" ∧ words.head? ≠ some "clear" := by
    rcases ofWords?_eq_some_iff.mp hc with ⟨name, ⟨hw, _⟩ | ⟨hw, _⟩ | ⟨hw, _⟩⟩ <;>
      rw [hw] <;> exact ⟨by simp, by simp⟩
  refine ⟨hhead.1, hhead.2, fun c' fs hc' => ?_⟩
  rw [hc, Option.some.injEq] at hc'
  rw [← hc', h]
  simp only [ne_eq, reduceCtorEq, not_false_eq_true]

-- A command is found by its own name.
theorem eq_name_of_ofName? {name : String} {command : Command}
    (h : Command.ofName? name = some command) : name = command.name := by
  have hfound := List.find?_some h
  exact (decide_eq_true_eq.mp hfound).symm

-- A call of the file system, granted or refused.
theorem withFileSystem_does {s : Session} {words : List String} {c : Call}
    (h : Call.ofWords? words = some c) :
    Does s words (s.withFileSystem (s.fileSystem.answer c)).1
      (s.withFileSystem (s.fileSystem.answer c)).2 := by
  cases hanswer : s.fileSystem.answer c with
  | ok fs => exact Does.call words c fs h hanswer
  | error cause => exact Does.failed words _ (idle_of_refused h hanswer)

-- A text that is shown, or the failure to find one.
theorem shown_does (s : Session) {word : String} (args : List String)
    (h : word ∉ ["quit", "clear", "mkdir", "touch", "cd"]) (result : Except Command.Error String) :
    Does s (word :: args) (shown result) s := by
  cases result with
  | ok text => exact answered_does s args text h
  | error cause => exact Does.failed _ _ (idle_of_notMem s args h)

/-- Running a command with the right number of arguments has one of the
    effects. -/
theorem perform_does (provider : Option Content.Provider) (s : Session) (command : Command)
    (args : List String) (h : command.arity.accepts args.length = true) :
    Does s (command.name :: args) ((s.perform command args).run provider).1
      ((s.perform command args).run provider).2 := by
  have hone : command.arity = .exactly 1 → ∃ arg, args = [arg] := by
    intro harity
    rw [harity, Arity.accepts, beq_iff_eq] at h
    exact List.length_eq_one_iff.mp h
  cases command with
  | help => exact answered_does s args _ (by decide)
  | quit => exact Does.quit args
  | clear => exact Does.clear args
  | set =>
    cases args with
    | nil =>
      -- Without a name the number of arguments would be wrong.
      exact absurd h (by decide)
    | cons name words => exact Does.set name words
  | print =>
    cases hvar : NameMap.get? (args.headD "") s.vars with
    | none =>
      simp only [perform, printVariable, hvar, Step.run]
      exact Does.failed _ _ (idle_of_notMem s args (by decide))
    | some value =>
      simp only [perform, printVariable, hvar, Step.run]
      exact answered_does s args value (by decide)
  | echo => exact answered_does s args _ (by decide)
  | ls => exact answered_does s args _ (by decide)
  | mkdir =>
    rcases hone rfl with ⟨arg, harg⟩
    subst harg
    exact withFileSystem_does (ofWords?_eq_some_iff.mpr ⟨arg, Or.inl ⟨rfl, rfl⟩⟩)
  | touch =>
    rcases hone rfl with ⟨arg, harg⟩
    subst harg
    exact withFileSystem_does (ofWords?_eq_some_iff.mpr ⟨arg, Or.inr (Or.inl ⟨rfl, rfl⟩)⟩)
  | cd =>
    rcases hone rfl with ⟨arg, harg⟩
    subst harg
    have hwords : Call.ofWords? ["cd", arg] = some (.cd arg) := rfl
    by_cases hroot : s.fileSystem.cd arg = .error .alreadyAtRoot
    · -- The one refusal that is not reported as a failure.
      simp only [perform, changeDir, List.headD_cons, hroot, Step.run]
      rcases FileSystem.cd_eq_error_iff.mp hroot with ⟨hup, hplace, _⟩ | ⟨_, _, hcause⟩
      · rw [hup]
        exact Does.atRoot hplace
      · exact absurd hcause (by decide)
    · have hresult : s.changeDir arg = s.withFileSystem (s.fileSystem.cd arg) := by
        rw [changeDir]
        split
        · rename_i hc
          exact absurd hc hroot
        · rfl
      simp only [perform, List.headD_cons, hresult, Step.run]
      exact withFileSystem_does hwords
  | cat =>
    simp only [perform, Step.run_map]
    exact shown_does s args (by decide) _
  | source => exact answered_does s args _ (by decide)
  | run => exact answered_does s args _ (by decide)

-- With the wrong number of arguments no command is run.
theorem idle_of_arity (s : Session) (command : Command) (args : List String)
    (h : ¬ command.arity.accepts args.length = true) : s.Idle (command.name :: args) := by
  -- What acts outside takes anything, and what makes a call takes one argument.
  have hany : command.arity ≠ .any := by
    intro hc
    rw [hc] at h
    exact h rfl
  have hnotOne : args.length = 1 → command.arity ≠ .exactly 1 := by
    intro hlen hc
    rw [hc, hlen] at h
    exact h rfl
  refine ⟨fun hc => ?_, fun hc => ?_, fun c fs hc => ?_⟩
  · cases command <;> first | exact hany rfl | exact absurd (Option.some.inj hc) (by decide)
  · cases command <;> first | exact hany rfl | exact absurd (Option.some.inj hc) (by decide)
  · have hlen := length_of_ofWords? hc
    have hmem := mem_of_ofWords? hc
    cases command <;> first | exact absurd rfl (hnotOne hlen) | exact absurd hmem (by decide)

-- The effects of a line, by its first word.
theorem execWords_does (provider : Option Content.Provider) (s : Session) (words : List String) :
    Does s words ((s.execWords words).run provider).1 ((s.execWords words).run provider).2 := by
  cases words with
  | nil => exact Does.answered [] "" ⟨by simp, by simp, fun c fs hc => by cases hc⟩ rfl
  | cons word args =>
    cases hname : Command.ofName? word with
    | none =>
      -- The words with consequences all call a command, so this is none of them.
      have hidle : s.Idle (word :: args) := by
        refine idle_of_notMem s args (fun hmem => ?_)
        have hall : ∀ w ∈ ["quit", "clear", "mkdir", "touch", "cd"],
            (Command.ofName? w).isSome = true := by decide
        have hsome := hall word hmem
        rw [hname] at hsome
        exact absurd hsome (by decide)
      simp only [execWords, hname, Step.run]
      exact Does.failed _ _ hidle
    | some command =>
      have hword := eq_name_of_ofName? hname
      simp only [execWords, hname]
      by_cases harity : command.arity.accepts args.length = true
      · rw [if_pos harity, hword]
        exact perform_does provider s command args harity
      · rw [if_neg harity, hword]
        exact Does.failed _ _ (idle_of_arity s command args harity)

/-- A line that calls a command with the right number of arguments runs it. -/
theorem exec_eq_perform (command : Command) {s : Session} {line : String} {args : List String}
    (h : tokenize line = command.name :: args) (harity : command.arity.accepts args.length = true) :
    s.exec line = s.perform command args := by
  rw [exec, h, execWords]
  simp only [Command.ofName?_name, if_pos harity]

/-- Every line has one of the effects. -/
theorem exec_does (provider : Option Content.Provider) (s : Session) (line : String) :
    Does s (tokenize line) ((s.exec line).run provider).1 ((s.exec line).run provider).2 :=
  execWords_does provider s (tokenize line)

namespace Does

variable {s t : Session} {words : List String} {r : Outcome}

/-- A line reports success or failure, and a failure changes nothing and asks
    for nothing. -/
theorem exitCode (h : Does s words r t) :
    (r.exitCode = 0 ∨ r.exitCode = 1) ∧ (r.exitCode = 1 → t = s ∧ r.effect = .none) := by
  cases h with
  | failed words message hidle => exact ⟨Or.inr rfl, fun _ => ⟨rfl, rfl⟩⟩
  | answered words text hidle hwords => exact ⟨Or.inl rfl, fun hc => absurd hc (by simp)⟩
  | atRoot hplace => exact ⟨Or.inl rfl, fun hc => absurd hc (by simp)⟩
  | quit args => exact ⟨Or.inl rfl, fun hc => absurd hc (by decide)⟩
  | clear args => exact ⟨Or.inl rfl, fun hc => absurd hc (by decide)⟩
  | set name words => exact ⟨Or.inl rfl, fun hc => absurd hc (by decide)⟩
  | call words c fs hwords hanswer => exact ⟨Or.inl rfl, fun hc => absurd hc (by decide)⟩

/-- A line that changes something says nothing. -/
theorem eq_silent (h : Does s words r t) (hne : t ≠ s) : r = .silent := by
  cases h with
  | failed words message hidle => exact absurd rfl hne
  | answered words text hidle hwords => exact absurd rfl hne
  | atRoot hplace => exact absurd rfl hne
  | quit args => exact absurd rfl hne
  | clear args => exact absurd rfl hne
  | set name words => rfl
  | call words c fs hwords hanswer => rfl

/-- A line that changes the file system makes a call of it that succeeds, and
    changes nothing else. -/
theorem fileSystem (h : Does s words r t) (hne : t.fileSystem ≠ s.fileSystem) :
    t.vars = s.vars
      ∧ ∃ c, Call.ofWords? words = some c ∧ s.fileSystem.answer c = .ok t.fileSystem := by
  cases h with
  | failed words message hidle => exact absurd rfl hne
  | answered words text hidle hwords => exact absurd rfl hne
  | atRoot hplace => exact absurd rfl hne
  | quit args => exact absurd rfl hne
  | clear args => exact absurd rfl hne
  | set name words => exact absurd rfl hne
  | call words c fs hwords hanswer => exact ⟨rfl, c, hwords, hanswer⟩

/-- The file system after a line is the one after the call that it makes, or as
    before if it makes none. -/
theorem fileSystem_eq (h : Does s words r t) :
    t.fileSystem = (Call.ofWords? words).elim s.fileSystem s.fileSystem.afterCall := by
  cases h with
  | failed words message hidle =>
    cases hc : Call.ofWords? words with
    | none => rfl
    | some c =>
      cases hanswer : s.fileSystem.answer c with
      | ok fs => exact absurd hanswer (hidle.call c fs hc)
      | error cause => rw [Option.elim_some, FileSystem.afterCall, hanswer]
  | answered words text hidle hwords => rw [hwords, Option.elim_none]
  | atRoot hplace =>
    have hanswer : s.fileSystem.answer (.cd FileSystem.up) = .error .alreadyAtRoot :=
      FileSystem.cd_eq_error_iff.mpr (Or.inl ⟨rfl, hplace, rfl⟩)
    rw [Call.ofWords?, Option.elim_some, FileSystem.afterCall, hanswer]
  | quit args => rw [ofWords?_eq_none args (by decide), Option.elim_none]
  | clear args => rw [ofWords?_eq_none args (by decide), Option.elim_none]
  | set name words => rw [ofWords?_eq_none (name :: words) (by decide), Option.elim_none]
  | call words c fs hwords hanswer =>
    rw [hwords, Option.elim_some, FileSystem.afterCall, hanswer]

/-- A line that makes a call reports how the call went. Only the attempt to go
    up from the root is reported otherwise. -/
theorem call_cases {c : Call} (h : Does s words r t) (hc : Call.ofWords? words = some c) :
    ((∃ fs, s.fileSystem.answer c = .ok fs) ∧ r.exitCode = 0)
      ∨ ((∃ cause, s.fileSystem.answer c = .error cause) ∧ r.exitCode = 1)
      ∨ (c = .cd FileSystem.up ∧ s.fileSystem.place = []
        ∧ s.fileSystem.answer c = .error .alreadyAtRoot) := by
  cases h with
  | failed words message hidle =>
    refine Or.inr (Or.inl ⟨?_, rfl⟩)
    cases hanswer : s.fileSystem.answer c with
    | ok fs => exact absurd hanswer (hidle.call c fs hc)
    | error cause => exact ⟨cause, rfl⟩
  | answered words text hidle hwords => exact absurd (hc.symm.trans hwords) (by simp)
  | atRoot hplace =>
    have hup := (Option.some.inj hc).symm
    refine Or.inr (Or.inr ⟨hup, hplace, ?_⟩)
    rw [hup]
    exact FileSystem.cd_eq_error_iff.mpr (Or.inl ⟨rfl, hplace, rfl⟩)
  | quit args => exact absurd (hc.symm.trans (ofWords?_eq_none args (by decide))) (by simp)
  | clear args => exact absurd (hc.symm.trans (ofWords?_eq_none args (by decide))) (by simp)
  | set name words =>
    exact absurd (hc.symm.trans (ofWords?_eq_none (name :: words) (by decide))) (by simp)
  | call words c' fs hwords hanswer =>
    rw [hc, Option.some.injEq] at hwords
    exact Or.inl ⟨⟨fs, hwords ▸ hanswer⟩, rfl⟩

/-- A line that changes the variables gives one of them a value, and changes
    nothing else. -/
theorem vars (h : Does s words r t) (hne : t.vars ≠ s.vars) :
    t.fileSystem = s.fileSystem ∧ ∃ name values, words = "set" :: name :: values
      ∧ t.vars = NameMap.insert name (String.intercalate " " values) s.vars := by
  cases h with
  | failed words message hidle => exact absurd rfl hne
  | answered words text hidle hwords => exact absurd rfl hne
  | atRoot hplace => exact absurd rfl hne
  | quit args => exact absurd rfl hne
  | clear args => exact absurd rfl hne
  | set name words => exact ⟨rfl, name, words, rfl, rfl⟩
  | call words c fs hwords hanswer => exact absurd rfl hne

/-- The effects outside belong to one word each, whatever follows it. -/
theorem effect (h : Does s words r t) :
    (r.effect = .quit ↔ words.head? = some "quit")
      ∧ (r.effect = .clear ↔ words.head? = some "clear") := by
  cases h with
  | failed words message hidle =>
    exact ⟨⟨fun hc => absurd hc (by simp), fun hc => absurd hc hidle.quit⟩,
      fun hc => absurd hc (by simp), fun hc => absurd hc hidle.clear⟩
  | answered words text hidle hwords =>
    exact ⟨⟨fun hc => absurd hc (by simp), fun hc => absurd hc hidle.quit⟩,
      fun hc => absurd hc (by simp), fun hc => absurd hc hidle.clear⟩
  | atRoot hplace => simp
  | quit args => simp
  | clear args => simp
  | set name words => simp [Outcome.silent]
  | call words c fs hwords hanswer =>
    rcases ofWords?_eq_some_iff.mp hwords with ⟨name, ⟨hw, _⟩ | ⟨hw, _⟩ | ⟨hw, _⟩⟩ <;>
      rw [hw] <;> simp [Outcome.silent]

end Does

/-- What a line changes of a file system, if its call succeeds: `mkdir` and
    `touch` grow the local tree by their entry, and `cd` moves. -/
theorem answer_of_ofWords? {fs fs' : FileSystem} {words : List String} {c : Call}
    (hc : Call.ofWords? words = some c) (h : fs.answer c = .ok fs') :
    fs'.permanentTree = fs.permanentTree ∧ ∃ name,
      (words = ["mkdir", name] ∧ fs'.cwd = fs.cwd
        ∧ (Creation.dir fs.place name).Grows fs.localTree fs'.localTree)
      ∨ (words = ["touch", name] ∧ fs'.cwd = fs.cwd
        ∧ (Creation.file fs.place name).Grows fs.localTree fs'.localTree)
      ∨ (words = ["cd", name] ∧ fs'.localTree = fs.localTree) := by
  have hmade := FileSystem.answer_creation h
  rcases ofWords?_eq_some_iff.mp hc with ⟨name, ⟨hw, hcall⟩ | ⟨hw, hcall⟩ | ⟨hw, hcall⟩⟩
  · rw [hcall] at hmade
    exact ⟨by rw [hmade.1]; rfl, name, Or.inl ⟨hw, by rw [hmade.1]; rfl, hmade.2⟩⟩
  · rw [hcall] at hmade
    exact ⟨by rw [hmade.1]; rfl, name, Or.inr (Or.inl ⟨hw, by rw [hmade.1]; rfl, hmade.2⟩)⟩
  · rw [hcall] at hmade
    exact ⟨hmade.1, name, Or.inr (Or.inr ⟨hw, hmade.2⟩)⟩

/-- What a line can change, and what it then says. It succeeds or fails, and a
    failure changes nothing. A line that changes something says nothing. The
    permanent tree never changes, and of the three other parts of a session at
    most one does: the local tree only by `mkdir` or `touch`, and then by one
    new empty entry at the current path; the current path only by `cd`; the
    variables only by `set`, and then only the one that is named. The effects
    outside belong to `quit` and `clear`, whatever their arguments. -/
theorem exec_frame (provider : Option Content.Provider) (s : Session) (line : String) :
    let words := tokenize line
    let r := ((s.exec line).run provider).1
    let t := ((s.exec line).run provider).2
    (r.exitCode = 0 ∨ r.exitCode = 1)
      ∧ (r.exitCode = 1 → t = s ∧ r.effect = .none)
      ∧ (t ≠ s → r = .silent)
      ∧ t.fileSystem.permanentTree = s.fileSystem.permanentTree
      ∧ (t.fileSystem.localTree ≠ s.fileSystem.localTree →
          t.fileSystem.cwd = s.fileSystem.cwd ∧ t.vars = s.vars ∧ ∃ name,
            (words = ["mkdir", name] ∧ (Creation.dir (Path.segments s.fileSystem.cwd) name).Grows
              s.fileSystem.localTree t.fileSystem.localTree)
            ∨ (words = ["touch", name] ∧ (Creation.file (Path.segments s.fileSystem.cwd) name).Grows
              s.fileSystem.localTree t.fileSystem.localTree))
      ∧ (t.fileSystem.cwd ≠ s.fileSystem.cwd →
          t.fileSystem.localTree = s.fileSystem.localTree ∧ t.vars = s.vars
            ∧ words.head? = some "cd")
      ∧ (t.vars ≠ s.vars →
          t.fileSystem = s.fileSystem ∧ ∃ name values, words = "set" :: name :: values
            ∧ NameMap.get? name t.vars = some (String.intercalate " " values)
            ∧ ∀ other, other ≠ name → NameMap.get? other t.vars = NameMap.get? other s.vars)
      ∧ (r.effect = .quit ↔ words.head? = some "quit")
      ∧ (r.effect = .clear ↔ words.head? = some "clear") := by
  intro words r t
  have h : Does s words r t := exec_does provider s line
  refine ⟨h.exitCode.1, h.exitCode.2, h.eq_silent, ?_, ?_, ?_, ?_, h.effect.1, h.effect.2⟩
  · by_cases hfs : t.fileSystem = s.fileSystem
    · rw [hfs]
    · rcases h.fileSystem hfs with ⟨_, c, hc, hanswer⟩
      exact (answer_of_ofWords? hc hanswer).1
  · -- The local tree differs, so the call was not a move.
    intro hne
    rcases h.fileSystem (fun hfs => hne (by rw [hfs])) with ⟨hvars, c, hc, hanswer⟩
    rcases (answer_of_ofWords? hc hanswer).2 with
      ⟨name, ⟨hw, hcwd, hgrows⟩ | ⟨hw, hcwd, hgrows⟩ | ⟨_, hlocal⟩⟩
    · exact ⟨hcwd, hvars, name, Or.inl ⟨hw, hgrows⟩⟩
    · exact ⟨hcwd, hvars, name, Or.inr ⟨hw, hgrows⟩⟩
    · exact absurd hlocal hne
  · -- The current path differs, so the call was no creation.
    intro hne
    rcases h.fileSystem (fun hfs => hne (by rw [hfs])) with ⟨hvars, c, hc, hanswer⟩
    rcases (answer_of_ofWords? hc hanswer).2 with
      ⟨name, ⟨_, hcwd, _⟩ | ⟨_, hcwd, _⟩ | ⟨hw, hlocal⟩⟩
    · exact absurd hcwd hne
    · exact absurd hcwd hne
    · exact ⟨hlocal, hvars, by rw [hw]; rfl⟩
  · intro hne
    rcases h.vars hne with ⟨hfs, name, values, hw, hvars⟩
    refine ⟨hfs, name, values, hw, ?_, fun other hother => ?_⟩
    · rw [hvars, NameMap.get?_insert_self]
    · rw [hvars, NameMap.get?_insert_of_ne hother]

end Session

end StrataShell
