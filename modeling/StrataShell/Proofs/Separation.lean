import StrataShell.Proofs.Run
import StrataShell.Proofs.View

/-!
# The Two Layers Keep Apart

A session that begins with an empty local tree never gets an entry that both
layers have. The check for a new directory looks into both trees, the check for
a new file into the permanent one, and each looks only at the place where the
user stands. That is enough: an entry is made nowhere else, so the check at one
place rules out all the collisions that one step could bring about.

The view puts the local content of a file before the permanent one. With the
layers apart this rule never applies, and no permanent file is ever hidden: at
any time it is shown with the content that it has had from the start.

## Main definitions

* `FileSystem.Separate`: No entry belongs to both layers.
* `FileContent.text`: The text of a permanent file, as a provider has it.

## Theorems

* `Separate.answer`: A call that succeeds keeps the layers apart.
* `separate_after`: So does a run.
* `permanent_never_shadowed`: What the permanent tree has is always shown.
-/

namespace StrataShell

namespace FileSystem

/-- No entry belongs to both layers: none of the local tree has the place and
    the name of one of the permanent tree. -/
structure Separate (fs : FileSystem) : Prop where
  dirs : ∀ place name, (fs.localTree.resolve (place ++ [name])).isSome = true →
    fs.permanentTree.resolve (place ++ [name]) = none
  files : ∀ place name, (fs.localTree.fileAt? place name).isSome = true →
    fs.permanentTree.fileAt? place name = none

-- An empty local tree has nothing in common with anything.
theorem separate_of_empty (permanentTree : Dir FileContent) :
    Separate { permanentTree := permanentTree } := by
  have hempty : ∀ place, Dir.entriesAt place ({} : Dir String)
      = if place = [] then some {} else none := Dir.entriesAt_empty
  refine ⟨fun place name h => ?_, fun place name h => ?_⟩
  · rw [← Dir.isSome_entriesAt, hempty, if_neg (by simp)] at h
    exact absurd h Bool.false_ne_true
  · rw [Dir.fileAt?, hempty] at h
    split at h <;> exact absurd h Bool.false_ne_true

namespace Separate

variable {fs fs' : FileSystem}

-- A creation keeps the layers apart if the permanent tree has no such entry.
theorem grow (h : Separate fs) {made : Creation} (hfs : fs' = fs.withCreation made)
    (hgrows : made.Grows fs.localTree fs'.localTree)
    (hdir : ∀ place name, made = .dir place name →
      fs.permanentTree.resolve (place ++ [name]) = none)
    (hfile : ∀ place name, made = .file place name →
      fs.permanentTree.fileAt? place name = none) : Separate fs' := by
  have hpermanent : fs'.permanentTree = fs.permanentTree := by rw [hfs]; rfl
  refine ⟨fun place name hl => ?_, fun place name hl => ?_⟩
  · rw [hpermanent]
    rcases (hgrows.isSome_resolve_iff place name).mp hl with hold | hnew
    · exact h.dirs place name hold
    · exact hdir place name hnew
  · rw [hpermanent]
    rcases (hgrows.isIn_iff (.file place name)).mp hl with hold | hnew
    · exact h.files place name hold
    · exact hfile place name hnew

/-- A call that succeeds keeps the layers apart. -/
theorem answer (h : Separate fs) {c : Call} (hc : fs.answer c = .ok fs') : Separate fs' := by
  have hmade := answer_creation hc
  cases c with
  | mkdir name =>
    -- The check has looked into both trees.
    rcases mkdir_eq_ok_iff.mp hc with ⟨_, hfree, _, _⟩
    rw [← Bool.not_eq_true, hasDir_iff, not_or] at hfree
    refine h.grow hmade.1 hmade.2 (fun place other heq => ?_) (fun place other heq => by cases heq)
    injection heq with hplace hname
    rw [← hplace, ← hname]
    exact Option.not_isSome_iff_eq_none.mp hfree.1
  | touch name =>
    -- The check has looked into the permanent tree.
    rcases touch_eq_ok_iff.mp hc with ⟨_, hfree, _, _⟩
    rw [← Bool.not_eq_true, hasPermanentFile_iff] at hfree
    refine h.grow hmade.1 hmade.2 (fun place other heq => by cases heq) (fun place other heq => ?_)
    injection heq with hplace hname
    rw [← hplace, ← hname]
    exact Option.not_isSome_iff_eq_none.mp hfree
  | cd name =>
    rcases cd_eq_ok_iff.mp hc with ⟨_, _, hfs⟩ | ⟨_, _, hfs⟩ <;> rw [hfs] <;>
      exact ⟨h.dirs, h.files⟩
  | ls | view path | read name =>
    rw [← Except.ok.inj hc]
    exact h

end Separate

end FileSystem

/-- The text of a permanent file, as a provider has it: what is there in full is
    there at once, and the rest is asked for. -/
def FileContent.text (provider : Option Content.Provider) :
    FileContent → Except Command.Error String
  | .inlineText text => .ok text
  | .deferred path => (Content.fetchText provider path).mapError .content

namespace Session

/-- A run from an empty local tree keeps the layers apart, and the permanent
    one as it is. -/
theorem separate_after (provider : Option Content.Provider) (permanentTree : Dir FileContent)
    (vars : Variables) (actions : List Action) :
    let s : Session := { fileSystem := { permanentTree := permanentTree }, vars := vars }
    (s.after provider actions).fileSystem.permanentTree = permanentTree
      ∧ (s.after provider actions).fileSystem.Separate := by
  refine after_induction (motive := fun fs => fs.permanentTree = permanentTree ∧ fs.Separate)
    provider ⟨rfl, FileSystem.separate_of_empty permanentTree⟩ (fun fs c h => ?_) actions
  rw [FileSystem.afterCall]
  cases hc : fs.answer c with
  | error cause => exact h
  | ok fs' => exact ⟨(FileSystem.answer_permanentTree hc).trans h.1, h.2.answer hc⟩

/-- With the layers apart a permanent file is shown as the permanent tree has
    it. -/
theorem view_of_separate {fs : FileSystem} (h : fs.Separate) (hdistinct : fs.permanentTree.Distinct)
    {path name : String} {content : FileContent}
    (hfile : fs.permanentTree.fileAt? (Path.segments path) name = some content) :
    NameMap.get? name (fs.view path).files = some (.permanentFile content) := by
  have hlocal : fs.localTree.fileAt? (Path.segments path) name = none := by
    rw [← Option.not_isSome_iff_eq_none]
    intro hsome
    rw [h.files _ _ hsome] at hfile
    cases hfile
  rw [Dir.fileAt?, Dir.entriesAt] at hfile hlocal
  rw [FileSystem.view, FileSystem.permanentAt, FileSystem.localAt]
  cases hd : fs.permanentTree.resolve (Path.segments path) with
  | none =>
    rw [hd] at hfile
    cases hfile
  | some d =>
    rw [hd] at hfile
    rw [Option.bind_map] at hlocal
    cases hdistinct.resolve hd with
    | intro _ hfiles _ _ => exact View.get?_files_of_permanent hfiles hfile hlocal

/-- What `cat` shows of a file is its text. -/
theorem exec_cat (provider : Option Content.Provider) (s : Session) {line name : String}
    (hline : tokenize line = ["cat", name]) :
    (s.exec line).run provider = (shown ((s.fileText name).run provider), s) := by
  rw [exec_eq_perform .cat hline rfl, perform, Step.run_map, List.headD_cons]

/-- The text of a file that the view shows as a permanent one. -/
theorem fileText_of_permanent (provider : Option Content.Provider) {s : Session} {name : String}
    {content : FileContent}
    (h : NameMap.get? name s.fileSystem.here.files = some (.permanentFile content)) :
    (s.fileText name).run provider = content.text provider := by
  rw [fileText, h]
  cases content <;> rfl

/-- What the permanent tree has is always shown. Begin with an empty local tree
    and do anything: no path but the root leads somewhere in both trees, and no
    file is in both. So at every path each permanent file is shown with the
    content that the permanent tree gave it, and `cat` answers for it what it
    has answered before, as long as the provider does. -/
theorem permanent_never_shadowed (provider : Option Content.Provider)
    (permanentTree : Dir FileContent) (vars : Variables) (hdistinct : permanentTree.Distinct)
    (actions : List Action) :
    let s : Session := { fileSystem := { permanentTree := permanentTree }, vars := vars }
    let t := s.after provider actions
    t.fileSystem.permanentTree = permanentTree
      ∧ (∀ q, q ≠ [] → (t.fileSystem.localTree.resolve q).isSome = true →
          permanentTree.resolve q = none)
      ∧ (∀ name, name ∈ NameMap.names t.fileSystem.localTree.dirs →
          name ∉ NameMap.names permanentTree.dirs)
      ∧ (∀ q name, (t.fileSystem.localTree.fileAt? q name).isSome = true →
          permanentTree.fileAt? q name = none)
      ∧ (∀ path name content, permanentTree.fileAt? (Path.segments path) name = some content →
          NameMap.get? name (t.fileSystem.view path).files = some (.permanentFile content))
      ∧ (∀ name content line, permanentTree.fileAt? t.fileSystem.place name = some content →
          tokenize line = ["cat", name] →
          (t.exec line).run provider = (shown (content.text provider), t)) := by
  intro s t
  have h : t.fileSystem.permanentTree = permanentTree ∧ t.fileSystem.Separate :=
    separate_after provider permanentTree vars actions
  have hdirs : ∀ q, q ≠ [] → (t.fileSystem.localTree.resolve q).isSome = true →
      permanentTree.resolve q = none := by
    intro q hq hl
    rcases List.eq_nil_or_concat q with hnil | ⟨place, name, hparts⟩
    · exact absurd hnil hq
    · rw [List.concat_eq_append] at hparts
      rw [hparts] at hl ⊢
      exact h.1 ▸ h.2.dirs place name hl
  have hview : ∀ path name content,
      permanentTree.fileAt? (Path.segments path) name = some content →
        NameMap.get? name (t.fileSystem.view path).files = some (.permanentFile content) := by
    intro path name content hfile
    exact view_of_separate h.2 (h.1 ▸ hdistinct) (h.1.symm ▸ hfile)
  refine ⟨h.1, hdirs, fun name hl hp => ?_, fun q name hl => h.1 ▸ h.2.files q name hl, hview,
    fun name content line hfile hline => ?_⟩
  · -- A name in the root is a path of one segment.
    have hlocal : name ∈ t.fileSystem.localTree.dirNamesAt [] := hl
    have hpermanent : name ∈ permanentTree.dirNamesAt [] := hp
    rw [Dir.mem_dirNamesAt_iff, List.nil_append] at hlocal hpermanent
    have hnone := hdirs [name] (List.cons_ne_nil name []) hlocal
    rw [hnone] at hpermanent
    exact absurd hpermanent Bool.false_ne_true
  · rw [exec_cat provider t hline, fileText_of_permanent provider (hview _ name content hfile)]

/-- An attempt to put a local file in the place of a permanent one. -/
theorem permanent_never_shadowed_readme :
    let permanentTree : Dir FileContent := { files := [("readme", .inlineText "hello")] }
    let s : Session := { fileSystem := { permanentTree := permanentTree } }
    let attempt : List Action := [.call (.touch "readme"), .call (.touch "notes")]
    permanentTree.Distinct
      ∧ NameMap.get? "readme" ((s.after none attempt).fileSystem.view "/").files
        = some (.permanentFile (.inlineText "hello")) := by
  intro permanentTree s attempt
  have hdistinct : permanentTree.Distinct := by
    refine Dir.Distinct.intro permanentTree ?_ List.nodup_nil (fun name child hchild => ?_)
    · exact List.nodup_cons.mpr ⟨List.not_mem_nil, List.nodup_nil⟩
    · cases hchild
  have h := permanent_never_shadowed none permanentTree [] hdistinct attempt
  exact ⟨hdistinct, h.2.2.2.2.1 "/" "readme" (.inlineText "hello") (by decide)⟩

end Session

end StrataShell
