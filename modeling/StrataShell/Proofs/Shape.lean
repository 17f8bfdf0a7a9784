import StrataShell.Proofs.Independence
import StrataShell.Proofs.Journal
import StrataShell.Proofs.Overlay

/-!
# What the Contents of Files Cannot Change

The permanent tree and the provider are supplied from outside, and what a file
holds is not looked at before it is shown. This module says that the shell keeps
to that. Two sessions are compared whose permanent trees have the same names at
the same places and are otherwise as different as can be, with providers that
need not have anything in common. The same lines are typed into both.

The permanent tree of one session is exchanged for that of the other. A line
overlooks this exchange as long as the two trees have the same shape, since all
that it asks of the permanent tree is which names it has. The one exception is a
line that shows a permanent file; it shows what it is given, and changes nothing.

## Main definitions

* `Dir.skeleton`: A tree without the contents of its files.
* `Dir.SameShape`: Two trees have the same names at the same places.
* `Session.Alike`: Two sessions that differ in contents only.
* `Session.ShowsPermanent`: A line shows a permanent file.

## Theorems

* `SameShape.resolve`: Trees of one shape have it at every place.
* `answer_replacePermanent`: Calls of the file system ask for names only.
* `overlooks_contents`: So does every line that shows no permanent file.
* `Alike.exec`: A line keeps two sessions alike.
* `contents_have_no_influence`: Sessions that are alike stay so, and answer
  alike.
-/

namespace StrataShell

namespace NameMap

variable {α β : Type}

/-- The names of a map do not depend on the values that were entered. -/
theorem names_insertAll_congr {m : NameMap α} {n : NameMap β} {first : List (String × α)}
    {second : List (String × β)} (hmaps : names m = names n)
    (hentries : names first = names second) :
    names (insertAll m first) = names (insertAll n second) := by
  induction first generalizing m n second with
  | nil =>
    rw [List.map_eq_nil_iff.mp hentries.symm]
    exact hmaps
  | cons entry rest ih =>
    cases second with
    | nil => exact absurd hentries (by simp [names])
    | cons other later =>
      rcases List.cons.inj hentries with ⟨hname, hrest⟩
      refine ih (m := insert entry.1 entry.2 m) (n := insert other.1 other.2 n) ?_ hrest
      rw [names_insert, names_insert, hmaps, show entry.1 = other.1 from hname]

end NameMap

namespace Dir

variable {F G : Type} {d : Dir F} {e : Dir G}

/-- A tree without the contents of its files. -/
def skeleton (d : Dir F) : Dir Unit :=
  d.mapFiles (fun _ => ())

/-- Two trees have the same names of directories and of files, in the same order,
    at every place. -/
def SameShape (d : Dir F) (e : Dir G) : Prop :=
  d.skeleton = e.skeleton

theorem names_dirs_skeleton (d : Dir F) : NameMap.names d.skeleton.dirs = NameMap.names d.dirs := by
  rw [skeleton, dirs_mapFiles, NameMap.names_map]

theorem names_files_skeleton (d : Dir F) :
    NameMap.names d.skeleton.files = NameMap.names d.files := by
  rw [skeleton, files_mapFiles, NameMap.names_map (fun _ => ())]

namespace SameShape

theorem names_dirs (h : d.SameShape e) : NameMap.names d.dirs = NameMap.names e.dirs := by
  have hskeleton : d.skeleton = e.skeleton := h
  rw [← names_dirs_skeleton d, hskeleton, names_dirs_skeleton]

theorem names_files (h : d.SameShape e) : NameMap.names d.files = NameMap.names e.files := by
  have hskeleton : d.skeleton = e.skeleton := h
  rw [← names_files_skeleton d, hskeleton, names_files_skeleton]

/-- Trees of one shape have it at every place. -/
theorem resolve (h : d.SameShape e) (place : List String) :
    (d.resolve place).map skeleton = (e.resolve place).map skeleton := by
  have hplace := congrArg (Dir.resolve place) h
  rwa [skeleton, skeleton, resolve_mapFiles, resolve_mapFiles] at hplace

theorem isSome_resolve (h : d.SameShape e) (place : List String) :
    (d.resolve place).isSome = (e.resolve place).isSome := by
  rw [← Option.isSome_map (f := skeleton), h.resolve, Option.isSome_map]

-- A missing directory has the shape of an empty one.
theorem getD_resolve (h : d.SameShape e) (place : List String) :
    ((d.resolve place).getD empty).SameShape ((e.resolve place).getD empty) := by
  have hplace := h.resolve place
  cases hd : d.resolve place with
  | none =>
    rw [hd, Option.map_none, eq_comm, Option.map_eq_none_iff] at hplace
    rw [hplace]
    rfl
  | some sub =>
    rw [hd, Option.map_some, eq_comm, Option.map_eq_some_iff] at hplace
    rcases hplace with ⟨other, hother, hshape⟩
    rw [hother]
    exact hshape.symm

theorem isSome_fileAt? (h : d.SameShape e) (place : List String) (name : String) :
    (d.fileAt? place name).isSome = (e.fileAt? place name).isSome := by
  rw [Bool.eq_iff_iff, fileAt?_eq_getD, fileAt?_eq_getD, ← NameMap.mem_names_iff,
    ← NameMap.mem_names_iff, (h.getD_resolve place).names_files]

end SameShape

end Dir

namespace View

/-- What is shown over permanent trees of one shape has the same names. -/
theorem names_ofLayers_congr {p q : Dir FileContent} (h : p.SameShape q) (l : Dir String) :
    NameMap.names (ofLayers (some p) (some l)).dirs
        = NameMap.names (ofLayers (some q) (some l)).dirs
      ∧ NameMap.names (ofLayers (some p) (some l)).files
        = NameMap.names (ofLayers (some q) (some l)).files := by
  have hdirs : ∀ d : Dir FileContent, NameMap.names (dirEntries .permanentLayer (some d))
      = NameMap.names d.dirs := fun d => NameMap.names_map (fun _ => Layer.permanentLayer) d.dirs
  have hfiles : ∀ d : Dir FileContent, NameMap.names (fileEntries .permanentFile (some d))
      = NameMap.names d.files := fun d => NameMap.names_map FileRef.permanentFile d.files
  refine ⟨NameMap.names_insertAll_congr rfl ?_, NameMap.names_insertAll_congr rfl ?_⟩
  · rw [NameMap.names, NameMap.names, List.map_append, List.map_append]
    exact congrArg (· ++ _) ((hdirs p).trans (h.names_dirs.trans (hdirs q).symm))
  · rw [NameMap.names, NameMap.names, List.map_append, List.map_append]
    exact congrArg (· ++ _) ((hfiles p).trans (h.names_files.trans (hfiles q).symm))

end View

namespace FileSystem

variable {fs : FileSystem} {tree : Dir FileContent}

/-- The file system with another permanent tree. -/
def replacePermanent (tree : Dir FileContent) (fs : FileSystem) : FileSystem :=
  { fs with permanentTree := tree }

theorem ls_replacePermanent (h : tree.SameShape fs.permanentTree) :
    (replacePermanent tree fs).ls = fs.ls := by
  have hnames := View.names_ofLayers_congr (h.getD_resolve fs.place)
    ((fs.localTree.resolve fs.place).getD Dir.empty)
  rw [ls, ls, here_getD, here_getD]
  exact View.listing_congr hnames.1 hnames.2

theorem hasDir_replacePermanent (h : tree.SameShape fs.permanentTree) (name : String) :
    (replacePermanent tree fs).hasDir name = fs.hasDir name := by
  rw [Bool.eq_iff_iff, hasDir_iff, hasDir_iff, ← h.isSome_resolve]
  rfl

theorem hasPermanentFile_replacePermanent (h : tree.SameShape fs.permanentTree) (name : String) :
    (replacePermanent tree fs).hasPermanentFile name = fs.hasPermanentFile name := by
  rw [Bool.eq_iff_iff, hasPermanentFile_iff, hasPermanentFile_iff, ← h.isSome_fileAt?]
  rfl

/-- A call asks the permanent tree for names only. -/
theorem answer_replacePermanent (h : tree.SameShape fs.permanentTree) (c : Call) :
    (replacePermanent tree fs).answer c = (fs.answer c).map (replacePermanent tree) := by
  have hlocal : ∀ path, (replacePermanent tree fs).localAt path = fs.localAt path := fun _ => rfl
  have hcwd : (replacePermanent tree fs).cwd = fs.cwd := rfl
  cases c with
  | mkdir name =>
    simp only [answer, mkdir, hasDir_replacePermanent h, hlocal, hcwd]
    cases isDirName name <;> cases fs.hasDir name <;> cases fs.localAt fs.cwd <;> rfl
  | touch name =>
    simp only [answer, touch, hasPermanentFile_replacePermanent h, hlocal, hcwd]
    cases isFileName name <;> cases fs.hasPermanentFile name <;> cases fs.localAt fs.cwd with
    | none => rfl
    | some d =>
      dsimp only
      cases NameMap.contains name d.files <;> rfl
  | cd name =>
    simp only [answer, cd, hasDir_replacePermanent h, hcwd]
    by_cases hup : name = up
    · simp only [if_pos hup]
      cases Path.isRoot fs.cwd <;> rfl
    · simp only [if_neg hup]
      cases fs.hasDir name <;> rfl
  | ls | view path | read name => rfl

-- The search from the end misses a file exactly if it is not there.
theorem fileAt?_reverse_eq_none_iff {F : Type} {place : List String} {name : String} {d : Dir F} :
    (d.resolve place).bind (fun sub => NameMap.get? name sub.files.reverse) = none
      ↔ d.fileAt? place name = none := by
  rw [Dir.fileAt?_eq_bind]
  cases d.resolve place with
  | none => rfl
  | some sub =>
    rw [Option.bind_some, Option.bind_some, ← Option.not_isSome_iff_eq_none,
      NameMap.isSome_get?_reverse, Option.not_isSome_iff_eq_none]

/-- A file that the local tree has is seen as that tree has it, and one that
    neither tree has is not seen, whatever the permanent files hold. -/
theorem get?_here_replacePermanent (h : tree.SameShape fs.permanentTree) {name : String}
    (hname : (fs.permanentTree.fileAt? fs.place name).isSome = true →
      fs.localTree.fileAt? fs.place name ≠ none) :
    NameMap.get? name (replacePermanent tree fs).here.files
      = NameMap.get? name fs.here.files := by
  have hplace : (replacePermanent tree fs).place = fs.place := rfl
  have hlocal : (replacePermanent tree fs).localTree = fs.localTree := rfl
  have htree : (replacePermanent tree fs).permanentTree = tree := rfl
  rw [get?_here_eq_or, get?_here_eq_or, hplace, hlocal, htree]
  cases hl : (fs.localTree.resolve fs.place).bind
      (fun sub => NameMap.get? name sub.files.reverse) with
  | some text => rfl
  | none =>
    have hnone : fs.permanentTree.fileAt? fs.place name = none := by
      rw [← Option.not_isSome_iff_eq_none]
      exact fun hsome => hname hsome (fileAt?_reverse_eq_none_iff.mp hl)
    have hother : tree.fileAt? fs.place name = none := by
      rw [← Option.not_isSome_iff_eq_none, h.isSome_fileAt?, hnone]
      exact Bool.false_ne_true
    rw [fileAt?_reverse_eq_none_iff.mpr hnone, fileAt?_reverse_eq_none_iff.mpr hother]

/-- A file that is seen as a permanent one is a file of the permanent tree, and
    none of the local tree. -/
theorem fileAt?_of_permanentFile_here {name : String} {content : FileContent}
    (h : NameMap.get? name fs.here.files = some (.permanentFile content)) :
    (fs.permanentTree.fileAt? fs.place name).isSome = true
      ∧ fs.localTree.fileAt? fs.place name = none := by
  have hlocal : fs.localTree.fileAt? fs.place name = none := by
    rw [← Option.not_isSome_iff_eq_none]
    intro hsome
    rcases exists_localFile_here hsome with ⟨text, htext⟩
    rw [htext] at h
    cases h
  refine ⟨?_, hlocal⟩
  rw [get?_here_eq_or, fileAt?_reverse_eq_none_iff.mpr hlocal] at h
  rw [← Option.ne_none_iff_isSome]
  intro hnone
  rw [fileAt?_reverse_eq_none_iff.mpr hnone] at h
  cases h

end FileSystem

namespace Session

variable {s t : Session} {tree : Dir FileContent} {line : String}

/-- The session with another permanent tree. -/
def replacePermanent (tree : Dir FileContent) (s : Session) : Session :=
  { s with fileSystem := s.fileSystem.replacePermanent tree }

/-- Two sessions differ in the contents of permanent files at most. -/
structure Alike (s t : Session) : Prop where
  shape : t.fileSystem.permanentTree.SameShape s.fileSystem.permanentTree
  localTree : t.fileSystem.localTree = s.fileSystem.localTree
  cwd : t.fileSystem.cwd = s.fileSystem.cwd
  vars : t.vars = s.vars

/-- A line shows a permanent file: the permanent tree has a file of the name at
    the current path, and the local tree has none. -/
def ShowsPermanent (s : Session) (line : String) : Prop :=
  ∃ name, tokenize line = ["cat", name]
    ∧ (s.fileSystem.permanentTree.fileAt? s.fileSystem.place name).isSome = true
    ∧ s.fileSystem.localTree.fileAt? s.fileSystem.place name = none

theorem Alike.eq_replacePermanent (h : s.Alike t) :
    t = replacePermanent t.fileSystem.permanentTree s := by
  rw [replacePermanent, FileSystem.replacePermanent, ← h.localTree, ← h.cwd, ← h.vars]

theorem alike_replacePermanent (h : tree.SameShape s.fileSystem.permanentTree) :
    s.Alike (replacePermanent tree s) :=
  ⟨h, rfl, rfl, rfl⟩

/-! ### One line -/

-- A call is granted or refused by either tree, with the same outcome.
theorem withFileSystem_replacePermanent (h : tree.SameShape s.fileSystem.permanentTree)
    (c : Call) :
    (replacePermanent tree s).withFileSystem ((replacePermanent tree s).fileSystem.answer c)
      = ((s.withFileSystem (s.fileSystem.answer c)).1,
        replacePermanent tree (s.withFileSystem (s.fileSystem.answer c)).2) := by
  have hanswer : (replacePermanent tree s).fileSystem.answer c
      = (s.fileSystem.answer c).map (FileSystem.replacePermanent tree) :=
    FileSystem.answer_replacePermanent h c
  rw [hanswer]
  cases s.fileSystem.answer c <;> rfl

theorem changeDir_replacePermanent (h : tree.SameShape s.fileSystem.permanentTree)
    (name : String) : (replacePermanent tree s).changeDir name
      = ((s.changeDir name).1, replacePermanent tree (s.changeDir name).2) := by
  have hcd : (replacePermanent tree s).fileSystem.cd name
      = (s.fileSystem.cd name).map (FileSystem.replacePermanent tree) :=
    FileSystem.answer_replacePermanent h (.cd name)
  rw [changeDir, changeDir, hcd]
  cases s.fileSystem.cd name with
  | ok fs => rfl
  | error cause => cases cause <;> rfl

-- The text of a file that the local tree has, or that neither tree has.
theorem fileText_replacePermanent (h : tree.SameShape s.fileSystem.permanentTree) {name : String}
    (hname : (s.fileSystem.permanentTree.fileAt? s.fileSystem.place name).isSome = true →
      s.fileSystem.localTree.fileAt? s.fileSystem.place name ≠ none) :
    (replacePermanent tree s).fileText name = s.fileText name := by
  have hseen : NameMap.get? name (replacePermanent tree s).fileSystem.here.files
      = NameMap.get? name s.fileSystem.here.files :=
    FileSystem.get?_here_replacePermanent h hname
  rw [fileText, fileText, hseen]

/-- A command asks the permanent tree for names only, unless it shows a permanent
    file. -/
theorem perform_replacePermanent (h : tree.SameShape s.fileSystem.permanentTree)
    (command : Command) (args : List String)
    (hcat : command = .cat →
      (s.fileSystem.permanentTree.fileAt? s.fileSystem.place (args.headD "")).isSome = true →
      s.fileSystem.localTree.fileAt? s.fileSystem.place (args.headD "") ≠ none) :
    (replacePermanent tree s).perform command args
      = (s.perform command args).map
        (fun result => (result.1, replacePermanent tree result.2)) := by
  cases command with
  | help | quit | clear | print | echo | source | run => rfl
  | set => cases args <;> rfl
  | ls =>
    have hls : (replacePermanent tree s).fileSystem.ls = s.fileSystem.ls :=
      FileSystem.ls_replacePermanent h
    simp only [perform, hls, Step.map]
  | mkdir => exact congrArg Step.done (withFileSystem_replacePermanent h (.mkdir (args.headD "")))
  | touch => exact congrArg Step.done (withFileSystem_replacePermanent h (.touch (args.headD "")))
  | cd => simp only [perform, changeDir_replacePermanent h, Step.map]
  | cat => simp only [perform, fileText_replacePermanent h (hcat rfl), Step.map_map]

/-- A line overlooks the contents of permanent files, unless it shows one. -/
theorem overlooks_contents (h : tree.SameShape s.fileSystem.permanentTree)
    (hline : ¬ s.ShowsPermanent line) :
    Overlooks (replacePermanent tree) s (tokenize line) := by
  refine overlooks_of_perform (fun command args hwords harity => ?_)
  refine perform_replacePermanent h command args (fun hcat hpermanent hlocal => ?_)
  subst hcat
  rcases List.length_eq_one_iff.mp (beq_iff_eq.mp harity) with ⟨name, hargs⟩
  subst hargs
  exact hline ⟨name, hwords, hpermanent, hlocal⟩

-- The file that a line shows is seen as a permanent one only if the local tree has none.
theorem showsPermanent_of_wanted? {path : String} (h : s.wanted? line = some path) :
    s.ShowsPermanent line := by
  rcases wanted?_eq_some_iff.mp h with ⟨name, hwords, hfile⟩
  exact ⟨name, hwords, FileSystem.fileAt?_of_permanentFile_here hfile⟩

/-- A line that shows a permanent file changes nothing and asks the surroundings
    for nothing. -/
theorem run_of_showsPermanent (provider : Option Content.Provider) (h : s.ShowsPermanent line) :
    ((s.exec line).run provider).1.effect = .none ∧ ((s.exec line).run provider).2 = s := by
  rcases h with ⟨name, hwords, _⟩
  rw [exec_cat provider s hwords]
  exact ⟨by cases (s.fileText name).run provider <;> rfl, rfl⟩

/-- The same lines show permanent files in sessions that are alike. -/
theorem Alike.showsPermanent_iff (h : s.Alike t) :
    t.ShowsPermanent line ↔ s.ShowsPermanent line := by
  have hplace : t.fileSystem.place = s.fileSystem.place := congrArg Path.segments h.cwd
  simp only [ShowsPermanent, hplace, h.localTree, h.shape.isSome_fileAt?]

/-- A line answers alike in sessions that are alike, and carries the difference
    along, unless it shows a permanent file. -/
theorem Alike.run_exec (h : s.Alike t) (hline : ¬ s.ShowsPermanent line)
    (p q : Option Content.Provider) :
    (t.exec line).run q = (((s.exec line).run p).1,
      replacePermanent t.fileSystem.permanentTree ((s.exec line).run p).2) := by
  have hnone : s.wanted? line = none := by
    rw [Option.eq_none_iff_forall_ne_some]
    exact fun path hpath => hline (showsPermanent_of_wanted? hpath)
  have hrun := run_overlooked q (overlooks_contents h.shape hline)
  rw [← h.eq_replacePermanent, run_exec_of_wanted?_eq_none hnone q p] at hrun
  exact hrun

theorem permanentTree_exec (provider : Option Content.Provider) (s : Session) (line : String) :
    ((s.exec line).run provider).2.fileSystem.permanentTree = s.fileSystem.permanentTree := by
  have hgrown := after_grown provider s [.line line]
  exact hgrown.1

/-- A line keeps two sessions alike. -/
theorem Alike.exec (h : s.Alike t) (p q : Option Content.Provider) (line : String) :
    ((s.exec line).run p).2.Alike ((t.exec line).run q).2 := by
  by_cases hline : s.ShowsPermanent line
  · rw [(run_of_showsPermanent p hline).2,
      (run_of_showsPermanent q (h.showsPermanent_iff.mpr hline)).2]
    exact h
  · rw [h.run_exec hline p q]
    refine alike_replacePermanent ?_
    rw [permanentTree_exec]
    exact h.shape

/-! ### A run -/

theorem Alike.after (h : s.Alike t) (p q : Option Content.Provider) (lines : List String) :
    (s.after p (lines.map .line)).Alike (t.after q (lines.map .line)) := by
  induction lines generalizing s t with
  | nil => exact h
  | cons line rest ih => exact ih (h.exec p q line)

/-- The contents of permanent files and the provider have no influence. Take two
    sessions that differ in the contents of permanent files at most, each with a
    provider of its own or with none, and run the same lines in both. They are
    alike after every line: the local tree, the current path and the variables
    are the same, and so are the names in the permanent trees. Every line is
    answered alike in both, with the exception of a line that shows a file that
    the permanent tree has at the current path and the local tree has not. Such a
    line is an exception in both sessions, and it changes neither of them and
    asks the surroundings for nothing. -/
theorem contents_have_no_influence (h : s.Alike t) (p q : Option Content.Provider)
    (lines : List String) :
    let u := s.after p (lines.map .line)
    let v := t.after q (lines.map .line)
    u.Alike v ∧ ∀ line,
      (v.ShowsPermanent line ↔ u.ShowsPermanent line)
        ∧ (¬ u.ShowsPermanent line → ((v.exec line).run q).1 = ((u.exec line).run p).1)
        ∧ (u.ShowsPermanent line →
          (((u.exec line).run p).1.effect = .none ∧ ((u.exec line).run p).2 = u)
            ∧ ((v.exec line).run q).1.effect = .none ∧ ((v.exec line).run q).2 = v) := by
  intro u v
  have halike : u.Alike v := h.after p q lines
  refine ⟨halike, fun line => ⟨halike.showsPermanent_iff, fun hline => ?_, fun hline => ?_⟩⟩
  · rw [halike.run_exec hline p q]
  · exact ⟨run_of_showsPermanent p hline,
      run_of_showsPermanent q (halike.showsPermanent_iff.mpr hline)⟩

/-- A file that is at hand in one session and has to be fetched in the other,
    where it comes with a text that reads like a command. After a line that shows
    it the sessions are alike, a second such line shows two texts, and the file
    stands in the way of a new one in both. -/
theorem contents_have_no_influence_readme :
    let s : Session :=
      { fileSystem := { permanentTree := { files := [("readme", .inlineText "welcome")] } } }
    let t : Session :=
      { fileSystem := { permanentTree := { files := [("readme", .deferred "/readme")] } } }
    let q : Content.Provider := fun path => .ok { status := 200, path := path, body := "set X 1" }
    let lines := ["set X 2", "cat readme"]
    let u := s.after none (lines.map .line)
    let v := t.after (some q) (lines.map .line)
    s.Alike t ∧ u.Alike v
      ∧ u.ShowsPermanent "cat readme"
      ∧ ((u.exec "cat readme").run none).1 = .success "welcome"
      ∧ ((v.exec "cat readme").run (some q)).1 = .success "set X 1"
      ∧ ((v.exec "cat readme").run (some q)).2 = v
      ∧ ((v.exec "touch readme").run (some q)).1 = ((u.exec "touch readme").run none).1 := by
  intro s t q lines u v
  have hst : s.Alike t := ⟨rfl, rfl, rfl, rfl⟩
  rcases contents_have_no_influence hst none (some q) lines with ⟨huv, hlines⟩
  have hshows : u.ShowsPermanent "cat readme" :=
    ⟨"readme", by decide +kernel, by decide +kernel, by decide +kernel⟩
  have hother : ¬ u.ShowsPermanent "touch readme" := by
    rintro ⟨name, hwords, -⟩
    rw [show tokenize "touch readme" = ["touch", "readme"] by decide +kernel] at hwords
    exact absurd (List.cons.inj hwords).1 (by decide)
  exact ⟨hst, huv, hshows, by decide +kernel, by decide +kernel,
    ((hlines "cat readme").2.2 hshows).2.2, (hlines "touch readme").2.1 hother⟩

end Session

end StrataShell
