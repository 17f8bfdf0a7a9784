import StrataShell.Proofs.Agreement
import StrataShell.Proofs.CurrentPath
import StrataShell.Proofs.Separation

/-!
# Where Something Can Be Created

A creation may be refused for its name, for an entry that is there already, or
because the current path does not exist in the local tree. The last refusal is
checked for after the first, and for a directory also after the second, so it is
the answer exactly when nothing else stands against the call. Such a call is
`Vacant`: it asks for an entry with a fit name, and no entry of the kind is seen
under it.

When is the current path missing from the local tree? In a session that begins
with an empty one, two invariants settle this. The path always exists in one of
the trees, and the trees keep apart, so below the root it exists in exactly one.
What remains is a property of the place alone: a user who has moved into a
permanent directory is `Visiting`, and can create nothing there. Everywhere else
a call that is vacant succeeds.

## Main definitions

* `FileSystem.Vacant`: Nothing is in the way of an entry that a call asks for.
* `FileSystem.Visiting`: The current path is a permanent directory below the
  root.

## Theorems

* `answer_eq_localDirMissing_iff`, `exists_answer_eq_ok`: What becomes of a call
  that is vacant.
* `Located.missing_iff`: Nothing but a visit leads out of the local tree.
* `exec_eq_localDirMissing_iff`: A line reports the missing directory for its
  call.
* `creation_possible`: Where something can be created, and where it cannot.
-/

namespace StrataShell

namespace FileSystem

variable {fs : FileSystem} {c : Call}

/-- A call that asks for a new entry, with a fit name under which no entry of
    the kind is seen. -/
def Vacant (fs : FileSystem) : Call → Prop
  | .mkdir name => isDirName name = true ∧ name ∉ NameMap.names fs.here.dirs
  | .touch name => isFileName name = true ∧ name ∉ NameMap.names fs.here.files
  | .cd _ | .ls | .view _ | .read _ => False

/-- The user is visiting the permanent tree: the current path is below the root
    and exists there. -/
def Visiting (fs : FileSystem) : Prop :=
  fs.cwd ≠ Path.root ∧ (fs.permanentAt fs.cwd).isSome = true

/-- A local directory is missing for a call exactly if it does not exist and
    nothing else stands against the call. -/
theorem answer_eq_localDirMissing_iff :
    fs.answer c = .error .localDirMissing
      ↔ fs.Vacant c ∧ fs.localTree.resolve fs.place = none := by
  cases c with
  | mkdir name =>
    rw [answer, mkdir_eq_error_iff, Vacant, mem_dirs_here]
    simp [and_assoc]
  | touch name =>
    rw [answer, touch_eq_error_iff, Vacant, mem_files_here]
    cases fs.localTree.resolve fs.place with
    | none => simp
    | some d => simp
  | cd name =>
    rw [answer, cd_eq_error_iff, Vacant]
    simp
  | ls | view path | read name => simp [answer, Vacant]

/-- With a local directory, nothing stands against a call that is vacant. -/
theorem exists_answer_eq_ok (h : fs.Vacant c)
    (hplace : (fs.localTree.resolve fs.place).isSome = true) :
    ∃ fs', fs.answer c = .ok fs' := by
  cases c with
  | mkdir name =>
    rw [Vacant, mem_dirs_here, Bool.not_eq_true] at h
    exact ⟨_, mkdir_eq_ok_iff.mpr ⟨h.1, h.2, hplace, rfl⟩⟩
  | touch name =>
    rw [Vacant, mem_files_here, not_or, Bool.not_eq_true] at h
    rcases Option.isSome_iff_exists.mp hplace with ⟨d, hd⟩
    have hfree : NameMap.contains name d.files = false :=
      Bool.eq_false_iff.mpr (fun hmem => h.2.2 ⟨d, hd, hmem⟩)
    exact ⟨_, touch_eq_ok_iff.mpr ⟨h.1, h.2.1, ⟨d, hd, hfree⟩, rfl⟩⟩
  | cd name | ls | view path | read name => exact h.elim

end FileSystem

namespace Located

variable {fs : FileSystem} {stack : List String}

theorem cwd_eq_root_iff (h : Located fs stack) : fs.cwd = Path.root ↔ stack = [] := by
  rw [h.cwd, Path.ofSegments_eq_root_iff h.segments]

/-- With the layers apart, the current path is missing from the local tree on
    visits and at no other time. -/
theorem missing_iff (h : Located fs stack) (hs : fs.Separate) :
    fs.localTree.resolve fs.place = none ↔ fs.Visiting := by
  have hpermanent : fs.permanentAt fs.cwd = fs.permanentTree.resolve stack := by
    rw [← h.place_eq]
    rfl
  rw [FileSystem.Visiting, Ne, h.cwd_eq_root_iff, hpermanent, h.place_eq]
  constructor
  · intro hnone
    refine ⟨fun hnil => ?_, h.found.resolve_right (fun hsome => ?_)⟩
    · rw [hnil, Dir.resolve_nil] at hnone
      exact Option.some_ne_none _ hnone
    · rw [hnone] at hsome
      exact Bool.false_ne_true hsome
  · rintro ⟨hne, hsome⟩
    -- Below the root no path leads somewhere in both trees.
    rcases List.eq_nil_or_concat stack with hnil | ⟨place, name, hstack⟩
    · exact absurd hnil hne
    · rw [List.concat_eq_append] at hstack
      rw [← Option.not_isSome_iff_eq_none]
      intro hlocal
      rw [hstack] at hsome hlocal
      rw [hs.dirs place name hlocal] at hsome
      exact Bool.false_ne_true hsome

end Located

namespace Session

/-! ### What a line reports -/

-- A text that begins otherwise is another text, however it goes on.
theorem append_ne_of_head? {start text : String} {c : Char} (hstart : start.toList.head? = some c)
    (htext : text.toList.head? ≠ some c) (rest : String) : start ++ rest ≠ text := by
  rintro rfl
  rw [String.toList_append, List.head?_append, hstart] at htext
  exact htext rfl

/-- No other failure is told in the words for a missing directory. -/
theorem failed_eq_localDirMissing_iff {cause : Command.Error} :
    failed cause = failed (.fileSystem .localDirMissing)
      ↔ cause = .fileSystem .localDirMissing := by
  constructor
  · intro h
    have hmessage : cause.message = FileSystem.Error.localDirMissing.message :=
      congrArg Outcome.output h
    cases cause with
    | fileSystem cause =>
      cases cause with
      | localDirMissing => rfl
      | badCommand operation =>
        exact absurd hmessage (append_ne_of_head? (c := 'B') (by decide) (by decide) operation)
      | directoryExists | fileExists | permanentConflict | alreadyAtRoot | fileNotFound =>
        exact absurd hmessage (by decide)
    | content cause =>
      -- What comes from outside is told behind a text of the shell.
      cases cause with
      | status code =>
        exact absurd hmessage
          (append_ne_of_head? (c := 'E') (by decide) (by decide) (toString code))
      | transport text =>
        exact absurd hmessage (append_ne_of_head? (c := 'E') (by decide) (by decide) text)
      | unavailable => exact absurd hmessage (by decide)
    | unknown name =>
      exact absurd hmessage (append_ne_of_head? (c := 'U') (by decide) (by decide) name)
    | arity => exact absurd hmessage (by decide)
    | variableNotFound => exact absurd hmessage (by decide)
  · rintro rfl
    rfl

theorem success_ne_failed (text : String) (cause : Command.Error) :
    Outcome.success text ≠ failed cause :=
  fun h => Nat.zero_ne_one (congrArg Outcome.exitCode h)

theorem withFileSystem_eq_localDirMissing_iff {s : Session}
    {result : Except FileSystem.Error FileSystem} :
    (s.withFileSystem result).1 = failed (.fileSystem .localDirMissing)
      ↔ result = .error .localDirMissing := by
  cases result with
  | ok fs =>
    exact ⟨fun h => absurd h (success_ne_failed "" _), fun h => by cases h⟩
  | error cause =>
    rw [withFileSystem, failed_eq_localDirMissing_iff]
    simp

-- Reading fails for want of a file, or of its content.
theorem fileText_error_cases (provider : Option Content.Provider) {s : Session} {name : String}
    {cause : Command.Error} (h : (s.fileText name).run provider = .error cause) :
    cause = .fileSystem .fileNotFound ∨ ∃ reason, cause = .content reason := by
  rw [fileText] at h
  split at h
  · exact Or.inl (Except.error.inj h).symm
  · cases h
  · cases h
  · rename_i path _
    simp only [Step.run] at h
    cases hfetch : Content.fetchText provider path with
    | ok text =>
      rw [hfetch] at h
      cases h
    | error reason =>
      rw [hfetch] at h
      exact Or.inr ⟨reason, (Except.error.inj h).symm⟩

theorem fileText_ne_localDirMissing (provider : Option Content.Provider) (s : Session)
    (name : String) :
    (s.fileText name).run provider ≠ .error (.fileSystem .localDirMissing) := by
  intro h
  rcases fileText_error_cases provider h with hcause | ⟨reason, hcause⟩
  · exact absurd hcause (by decide)
  · cases hcause

theorem changeDir_ne_localDirMissing (s : Session) (name : String) :
    (s.changeDir name).1 ≠ failed (.fileSystem .localDirMissing) := by
  rw [changeDir]
  split
  · exact success_ne_failed _ _
  · rw [Ne, withFileSystem_eq_localDirMissing_iff, FileSystem.cd_eq_error_iff]
    simp

-- Of the commands only the two that create something report the missing directory.
theorem exists_call_of_perform (provider : Option Content.Provider) {s : Session}
    {command : Command} {args : List String} (harity : command.arity.accepts args.length = true)
    (h : ((s.perform command args).run provider).1 = failed (.fileSystem .localDirMissing)) :
    ∃ c, Call.ofWords? (command.name :: args) = some c
      ∧ s.fileSystem.answer c = .error .localDirMissing := by
  have hone : command.arity = .exactly 1 → ∃ arg, args = [arg] := by
    intro hexactly
    rw [hexactly, Arity.accepts, beq_iff_eq] at harity
    exact List.length_eq_one_iff.mp harity
  cases command with
  | mkdir =>
    rcases hone rfl with ⟨name, rfl⟩
    exact ⟨.mkdir name, rfl, withFileSystem_eq_localDirMissing_iff.mp h⟩
  | touch =>
    rcases hone rfl with ⟨name, rfl⟩
    exact ⟨.touch name, rfl, withFileSystem_eq_localDirMissing_iff.mp h⟩
  | cd => exact absurd h (changeDir_ne_localDirMissing s _)
  | cat =>
    rw [perform, Step.run_map] at h
    cases hresult : (s.fileText (args.headD "")).run provider with
    | ok text =>
      rw [hresult] at h
      exact absurd h (success_ne_failed _ _)
    | error cause =>
      rw [hresult] at h
      rw [failed_eq_localDirMissing_iff.mp h] at hresult
      exact absurd hresult (fileText_ne_localDirMissing provider s _)
  | print =>
    rw [perform, Step.run, printVariable] at h
    split at h
    · exact absurd h (success_ne_failed _ _)
    · exact absurd (failed_eq_localDirMissing_iff.mp h) (by decide)
  | help | quit | clear | set | echo | ls | source | run =>
    exact absurd (congrArg Outcome.exitCode h) Nat.zero_ne_one

/-- A line reports the missing directory exactly if it makes a call that is
    refused for it. -/
theorem exec_eq_localDirMissing_iff (provider : Option Content.Provider) (s : Session)
    (line : String) :
    ((s.exec line).run provider).1 = failed (.fileSystem .localDirMissing)
      ↔ ∃ c, Call.ofWords? (tokenize line) = some c
        ∧ s.fileSystem.answer c = .error .localDirMissing := by
  constructor
  · intro h
    rw [exec] at h
    cases hwords : tokenize line with
    | nil =>
      rw [hwords] at h
      exact absurd h (success_ne_failed _ _)
    | cons word args =>
      rw [hwords, execWords] at h
      cases hname : Command.ofName? word with
      | none =>
        simp only [hname, Step.run] at h
        exact absurd (failed_eq_localDirMissing_iff.mp h) (by simp)
      | some command =>
        simp only [hname] at h
        by_cases harity : command.arity.accepts args.length = true
        · rw [if_pos harity] at h
          rw [eq_name_of_ofName? hname]
          exact exists_call_of_perform provider harity h
        · rw [if_neg harity] at h
          exact absurd (failed_eq_localDirMissing_iff.mp h) (by decide)
  · rintro ⟨c, hc, hanswer⟩
    rcases ofWords?_eq_some_iff.mp hc with ⟨name, ⟨hw, rfl⟩ | ⟨hw, rfl⟩ | ⟨hw, rfl⟩⟩
    · rw [exec_eq_perform .mkdir hw rfl]
      exact withFileSystem_eq_localDirMissing_iff.mpr hanswer
    · rw [exec_eq_perform .touch hw rfl]
      exact withFileSystem_eq_localDirMissing_iff.mpr hanswer
    · -- A move is refused for other reasons.
      rw [FileSystem.answer, FileSystem.cd_eq_error_iff] at hanswer
      simp at hanswer

/-! ### A session from an empty local tree -/

/-- Where something can be created, in a session that begins with an empty local
    tree. The current path is the root, or exists in exactly one of the trees.
    Take a creation with a fit name under which no entry of the kind is seen. It
    succeeds at the root and wherever the permanent tree does not have the
    current path. In a permanent directory below the root it is refused, the
    local directory being missing, and nothing changes. Nothing else is ever
    refused for this, and no line of input reports it for another reason. -/
theorem creation_possible (provider : Option Content.Provider) (permanentTree : Dir FileContent)
    (vars : Variables) (hp : permanentTree.Addressable) (actions : List Action) :
    let s : Session := { fileSystem := { permanentTree := permanentTree }, vars := vars }
    let t := s.after provider actions
    let fs := t.fileSystem
    fs.permanentTree = permanentTree
      ∧ (fs.cwd = Path.root ∨ (fs.permanentAt fs.cwd).isSome = !(fs.localAt fs.cwd).isSome)
      ∧ (∀ c, fs.Vacant c → fs.cwd = Path.root ∨ fs.permanentAt fs.cwd = none →
          ∃ fs', fs.answer c = .ok fs')
      ∧ (∀ c, fs.answer c = .error .localDirMissing
          ↔ fs.Vacant c ∧ fs.cwd ≠ Path.root ∧ (fs.permanentAt fs.cwd).isSome = true)
      ∧ (∀ c, fs.answer c = .error .localDirMissing →
          t.act provider (.call c) = (.done (.error .localDirMissing), t))
      ∧ (∀ name, (t.fileText name).run provider ≠ .error (.fileSystem .localDirMissing))
      ∧ (∀ line, ((t.exec line).run provider).1 = failed (.fileSystem .localDirMissing)
          ↔ ∃ c, Call.ofWords? (tokenize line) = some c
            ∧ fs.Vacant c ∧ fs.cwd ≠ Path.root ∧ (fs.permanentAt fs.cwd).isSome = true)
      ∧ (∀ line, ((t.exec line).run provider).1 = failed (.fileSystem .localDirMissing) →
          ((t.exec line).run provider).2 = t) := by
  intro s t fs
  have hlocated : Located fs (s.stack provider actions) :=
    after_located provider (Located.of_root hp addressable_empty) actions
  have hlayers : fs.permanentTree = permanentTree ∧ fs.Separate :=
    separate_after provider permanentTree vars actions
  have hmissing : fs.localTree.resolve fs.place = none ↔ fs.Visiting :=
    hlocated.missing_iff hlayers.2
  have hanswer : ∀ c, fs.answer c = .error .localDirMissing ↔ fs.Vacant c ∧ fs.Visiting :=
    fun c => FileSystem.answer_eq_localDirMissing_iff.trans (and_congr_right' hmissing)
  refine ⟨hlayers.1, ?once, ?granted, hanswer, ?refused, fileText_ne_localDirMissing provider t,
    fun line => ?reported, fun line h => ?unchanged⟩
  case once =>
    have hlocal : fs.localAt fs.cwd = fs.localTree.resolve fs.place := rfl
    by_cases hroot : fs.cwd = Path.root
    · exact Or.inl hroot
    · right
      cases hplace : fs.localTree.resolve fs.place with
      | none =>
        rw [hlocal, hplace, (hmissing.mp hplace).2]
        rfl
      | some d =>
        have hhome : ¬ fs.Visiting := by
          rw [← hmissing, hplace]
          exact Option.some_ne_none d
        rw [hlocal, hplace, Bool.eq_false_iff.mpr (fun hsome => hhome ⟨hroot, hsome⟩)]
        rfl
  case granted =>
    intro c hvacant hplace
    refine FileSystem.exists_answer_eq_ok hvacant (Option.isSome_iff_ne_none.mpr ?_)
    rw [Ne, hmissing]
    rintro ⟨hroot, hsome⟩
    rcases hplace with hcwd | hnone
    · exact hroot hcwd
    · rw [hnone] at hsome
      exact Bool.false_ne_true hsome
  case refused =>
    intro c hc
    have hvacant := ((hanswer c).mp hc).1
    have hafter : t.fileSystem.afterCall c = t.fileSystem := by
      rw [FileSystem.afterCall, show t.fileSystem.answer c = _ from hc]
    have hreply : t.reply provider c = .done (.error .localDirMissing) := by
      cases c with
      | mkdir name | touch name =>
        rw [reply, show t.fileSystem.answer _ = _ from hc]
        rfl
      | cd name | ls | view path | read name => exact hvacant.elim
    rw [act, hafter, hreply]
  case reported =>
    rw [exec_eq_localDirMissing_iff]
    exact exists_congr (fun c => and_congr_right' (hanswer c))
  case unchanged =>
    refine ((exec_does provider t line).exitCode.2 ?_).1
    rw [h]
    rfl

/-- A directory can be made at the root, but nothing in the permanent directory
    that is entered then. -/
theorem creation_possible_visit :
    let permanentTree : Dir FileContent := { dirs := [("docs", {})] }
    let s : Session := { fileSystem := { permanentTree := permanentTree } }
    let visit : List Action := [.call (.mkdir "notes"), .call (.cd "docs")]
    let t := s.after none visit
    permanentTree.Addressable ∧ t.fileSystem.cwd = "/docs"
      ∧ t.fileSystem.localTree.dirNamesAt [] = ["notes"]
      ∧ t.act none (.call (.touch "a.txt")) = (.done (.error .localDirMissing), t) := by
  intro permanentTree s visit t
  have hp : permanentTree.Addressable := addressable_singleton (by decide)
  have h := creation_possible none permanentTree [] hp visit
  have hmissing := (h.2.2.2.1 (.touch "a.txt")).mpr
    ⟨⟨by decide, by decide⟩, by decide, by decide⟩
  exact ⟨hp, by decide, by decide, h.2.2.2.2.1 _ hmissing⟩

end Session

end StrataShell
