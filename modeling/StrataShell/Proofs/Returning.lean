import StrataShell.Proofs.Entering
import StrataShell.Proofs.Journal
import StrataShell.Proofs.Requests

/-!
# Every Directory Stays Enterable

A user who has lost track of the current path can go up until the root is
reached and come down again, name by name. That this works says more than that
lookups succeed: the names have to survive the cut of a line into words, going
up has to shorten any path there is, and each move down has to find in one of
the trees what the path looked up last had found there.

For names that can be walked along this needs no history. A created entry needs
one, because the place where it was made may have been reached in a way that is
not a list of its segments: by a supplied name that holds a separator, or through
one that reads like the way up. But the trees of a run only grow. So the moves
that once led to a place are granted once more, and they lead to it again.

## Main definitions

* `Session.IsWord`: A name that stands for itself in a line.
* `FileSystem.follow`: Moves by one name after another.
* `FileSystem.Covers`: A file system at the same place with more directories.
* `FileSystem.Reachable`: A place that some words lead to from the root.
* `Session.wayTo`: The lines that lead to the root and on by some names.
* `Session.LeadsTo`: What is expected of such lines.

## Theorems

* `follow_up`: Going up ends at the root.
* `follow_down`: Names that lead somewhere can be followed.
* `follow_covers`: What was followed can be followed in larger trees.
* `run_follow`: Lines that move say nothing and change nothing else.
* `leadsTo_of_resolve`: The way to a directory by the names that lead to it.
* `reachable_after`: A place where a run has been can be reached from then on.
* `every_directory_enterable`: The way to every directory, from wherever the
  session is.
-/

namespace StrataShell

namespace Session

/-- A name that stands for itself in a line. -/
def IsWord (name : String) : Prop :=
  name ≠ "" ∧ ' ' ∉ name.toList

instance (name : String) : Decidable (IsWord name) :=
  inferInstanceAs (Decidable (_ ∧ _))

end Session

namespace FileSystem

variable {fs fs' wider : FileSystem} {name : String} {names place : List String}

/-- Move by one name after another, as long as no move is refused. -/
def follow (fs : FileSystem) (names : List String) : Except Error FileSystem :=
  names.foldlM cd fs

/-- A file system is at the same place as another, and has all directories of
    the other's trees. -/
structure Covers (fs wider : FileSystem) : Prop where
  place : wider.place = fs.place
  permanentDirs : ∀ q, (fs.permanentTree.resolve q).isSome = true →
    (wider.permanentTree.resolve q).isSome = true
  localDirs : ∀ q, (fs.localTree.resolve q).isSome = true →
    (wider.localTree.resolve q).isSome = true

/-- A place that words of a line lead to from the root. -/
def Reachable (fs : FileSystem) (place : List String) : Prop :=
  ∃ names, (∀ name ∈ names, Session.IsWord name) ∧ ∃ cwd, Path.segments cwd = place
    ∧ follow { fs with cwd := Path.root } names = .ok { fs with cwd := cwd }

theorem follow_nil (fs : FileSystem) : fs.follow [] = .ok fs := rfl

theorem follow_cons (fs : FileSystem) (name : String) (rest : List String) :
    fs.follow (name :: rest) = (fs.cd name).bind (fun next => next.follow rest) := rfl

theorem follow_append (h : fs.follow names = .ok fs') (later : List String) :
    fs.follow (names ++ later) = fs'.follow later := by
  have hsplit : fs.follow (names ++ later)
      = (fs.follow names).bind (fun next => next.follow later) := List.foldlM_append
  rw [hsplit, h]
  rfl

-- A move changes the current path and nothing else.
theorem exists_cwd_of_cd (h : fs.cd name = .ok fs') : ∃ cwd, fs' = { fs with cwd := cwd } := by
  rcases cd_eq_ok_iff.mp h with ⟨_, _, hfs⟩ | ⟨_, _, hfs⟩
  · exact ⟨Path.parent fs.cwd, hfs⟩
  · exact ⟨Path.join fs.cwd name, hfs⟩

/-- Going up as many times as the current path has segments ends at the root. -/
theorem follow_up (fs : FileSystem) : ∃ cwd, Path.segments cwd = []
    ∧ fs.follow (List.replicate fs.place.length up) = .ok { fs with cwd := cwd } := by
  generalize hn : fs.place.length = n
  induction n generalizing fs with
  | zero => exact ⟨fs.cwd, List.length_eq_zero_iff.mp hn, rfl⟩
  | succ n ih =>
    have hne : fs.place ≠ [] := by
      intro hnil
      rw [hnil] at hn
      exact absurd hn (by simp)
    have hcd := cd_eq_ok_iff.mpr (Or.inl ⟨rfl, hne, rfl⟩)
    have hshort : place { fs with cwd := Path.parent fs.cwd } = fs.place.dropLast :=
      Path.segments_parent fs.cwd
    rcases ih { fs with cwd := Path.parent fs.cwd }
      (by rw [hshort, List.length_dropLast, hn]; omega) with ⟨cwd, hcwd, hfollow⟩
    refine ⟨cwd, hcwd, ?_⟩
    rw [List.replicate_succ, follow_cons, hcd]
    exact hfollow

/-- Names that lead somewhere in one of the trees can be followed. -/
theorem follow_down (hnames : Enterable names)
    (hfound : (fs.permanentTree.resolve (fs.place ++ names)).isSome = true
      ∨ (fs.localTree.resolve (fs.place ++ names)).isSome = true) :
    ∃ cwd, Path.segments cwd = fs.place ++ names
      ∧ fs.follow names = .ok { fs with cwd := cwd } := by
  induction names generalizing fs with
  | nil => exact ⟨fs.cwd, (List.append_nil _).symm, rfl⟩
  | cons name rest ih =>
    have hname := hnames name List.mem_cons_self
    rcases exists_cd_eq_ok hname.1 hname.2 hfound with ⟨next, hcd, hnext⟩
    have hplace : place { fs with cwd := next } = fs.place ++ [name] := hnext
    rw [List.append_cons, ← hplace] at hfound
    rcases ih (fun other hmem => hnames other (List.mem_cons_of_mem name hmem)) hfound with
      ⟨cwd, hcwd, hfollow⟩
    refine ⟨cwd, ?_, ?_⟩
    · rw [hcwd, hplace, List.append_assoc]
      rfl
    · rw [follow_cons, hcd]
      exact hfollow

/-! ### Larger trees -/

-- A directory that was found is found, and the way up is the same.
theorem cd_covers (h : fs.cd name = .ok fs') (hcovers : Covers fs wider) :
    ∃ cwd, wider.cd name = .ok { wider with cwd := cwd }
      ∧ Covers fs' { wider with cwd := cwd } := by
  rcases cd_eq_ok_iff.mp h with ⟨hup, hne, hfs⟩ | ⟨hup, hdir, hfs⟩
  · refine ⟨Path.parent wider.cwd, cd_eq_ok_iff.mpr (Or.inl ⟨hup, ?_, rfl⟩), ?_⟩
    · rw [hcovers.place]
      exact hne
    · subst hfs
      refine ⟨?_, hcovers.permanentDirs, hcovers.localDirs⟩
      have hplace : Path.segments wider.cwd = Path.segments fs.cwd := hcovers.place
      rw [place, place, Path.segments_parent, Path.segments_parent, hplace]
  · refine ⟨Path.join wider.cwd name, cd_eq_ok_iff.mpr (Or.inr ⟨hup, ?_, rfl⟩), ?_⟩
    · rw [hasDir_iff, hcovers.place]
      exact (hasDir_iff.mp hdir).imp (hcovers.permanentDirs _) (hcovers.localDirs _)
    · subst hfs
      refine ⟨?_, hcovers.permanentDirs, hcovers.localDirs⟩
      have hplace : Path.segments wider.cwd = Path.segments fs.cwd := hcovers.place
      rw [place, place, Path.segments_join, Path.segments_join, hplace]

/-- What was followed can be followed in larger trees, to the same place. -/
theorem follow_covers (h : fs.follow names = .ok fs') (hcovers : Covers fs wider) :
    ∃ cwd, wider.follow names = .ok { wider with cwd := cwd }
      ∧ Covers fs' { wider with cwd := cwd } := by
  induction names generalizing fs wider with
  | nil =>
    rw [follow_nil, Except.ok.injEq] at h
    exact ⟨wider.cwd, rfl, h ▸ hcovers⟩
  | cons name rest ih =>
    rw [follow_cons] at h
    cases hcd : fs.cd name with
    | error cause =>
      rw [hcd] at h
      cases h
    | ok next =>
      rw [hcd] at h
      rcases cd_covers hcd hcovers with ⟨cwd, hwider, hnext⟩
      rcases ih h hnext with ⟨last, hlast, hcovers'⟩
      refine ⟨last, ?_, hcovers'⟩
      rw [follow_cons, hwider]
      exact hlast

theorem reachable_root (fs : FileSystem) : fs.Reachable [] :=
  ⟨[], List.forall_mem_nil _, Path.root, Path.segments_root, rfl⟩

/-- A place that can be reached can be reached in larger trees. -/
theorem Reachable.mono (h : fs.Reachable place)
    (hpermanent : ∀ q, (fs.permanentTree.resolve q).isSome = true →
      (wider.permanentTree.resolve q).isSome = true)
    (hlocal : ∀ q, (fs.localTree.resolve q).isSome = true →
      (wider.localTree.resolve q).isSome = true) : wider.Reachable place := by
  rcases h with ⟨names, hwords, cwd, hcwd, hfollow⟩
  have hcovers : Covers { fs with cwd := Path.root } { wider with cwd := Path.root } :=
    ⟨rfl, hpermanent, hlocal⟩
  rcases follow_covers hfollow hcovers with ⟨last, hlast, hcovers'⟩
  exact ⟨names, hwords, last, hcovers'.place.trans hcwd, hlast⟩

theorem Reachable.grow (h : fs.Reachable fs.place) {made : Creation}
    (hfs : fs' = fs.withCreation made) (hgrows : made.Grows fs.localTree fs'.localTree) :
    fs'.Reachable fs'.place := by
  subst hfs
  exact h.mono (fun _ => id) (fun _ => hgrows.isSome_resolve)

/-- A move by a word leads from a place that can be reached to another. -/
theorem Reachable.cd (h : fs.Reachable fs.place) (hword : Session.IsWord name)
    (hcd : fs.cd name = .ok fs') : fs'.Reachable fs'.place := by
  rcases h with ⟨names, hwords, cwd, hcwd, hfollow⟩
  have hcovers : Covers fs { fs with cwd := cwd } := ⟨hcwd, fun _ => id, fun _ => id⟩
  rcases cd_covers hcd hcovers with ⟨last, hlast, hcovers'⟩
  rcases exists_cwd_of_cd hcd with ⟨own, hfs⟩
  subst hfs
  refine ⟨names ++ [name], ?_, last, hcovers'.place, ?_⟩
  · intro other hmem
    rcases List.mem_append.mp hmem with hold | hnew
    · exact hwords other hold
    · exact List.mem_singleton.mp hnew ▸ hword
  · rw [follow_append hfollow, follow_cons, hlast]
    rfl

/-- From a place that can be reached, a directory in it can be. -/
theorem Reachable.concat (h : fs.Reachable place) (hword : Session.IsWord name)
    (hname : Path.IsSegment name) (hup : name ≠ up)
    (hdir : (fs.localTree.resolve (place ++ [name])).isSome = true) :
    fs.Reachable (place ++ [name]) := by
  rcases h with ⟨names, hwords, cwd, hcwd, hfollow⟩
  let here : FileSystem := { fs with cwd := cwd }
  have hhere : here.Reachable here.place := ⟨names, hwords, cwd, rfl, hfollow⟩
  have hfound : (here.localTree.resolve (here.place ++ [name])).isSome = true := by
    rw [← hcwd] at hdir
    exact hdir
  rcases exists_cd_eq_ok hname hup (Or.inr hfound) with ⟨next, hcd, hnext⟩
  have hplace : Path.segments next = place ++ [name] := by
    rw [hnext, ← hcwd]
    rfl
  have hthere := hhere.cd hword hcd
  exact hplace ▸ hthere.mono (fun _ => id) (fun _ => id)

end FileSystem

namespace Session

variable {s : Session} {names : List String}

/-- The lines that lead to the root and on by some names. -/
def wayTo (s : Session) (names : List String) : List String :=
  List.replicate s.fileSystem.place.length "cd .." ++ names.map ("cd " ++ ·)

/-- Some lines say nothing, and lead to a place while all else stays as it is. -/
structure LeadsTo (provider : Option Content.Provider) (s : Session) (lines : List String)
    (place : List String) : Prop where
  silent : ∀ x ∈ s.exchanges provider lines, x.outcome = .silent
  place : (s.after provider (lines.map .line)).fileSystem.place = place
  permanentTree :
    (s.after provider (lines.map .line)).fileSystem.permanentTree = s.fileSystem.permanentTree
  localTree : (s.after provider (lines.map .line)).fileSystem.localTree = s.fileSystem.localTree
  vars : (s.after provider (lines.map .line)).vars = s.vars

/-! ### Words -/

theorem isWord_of_mem_tokenize {line name : String} (h : name ∈ tokenize line) : IsWord name :=
  ⟨Text.ne_empty_of_mem_fields h, Text.notMem_of_mem_fields h⟩

-- Two words with a space between them are the words of a line.
theorem tokenize_words {a b : String} (ha : IsWord a) (hb : IsWord b) :
    tokenize (a ++ " " ++ b) = [a, b] := by
  have hspace : " " = String.singleton ' ' := rfl
  rw [tokenize, hspace, Text.fields_append, Text.fields_singleton ha.1 ha.2,
    Text.fields_singleton hb.1 hb.2]
  rfl

-- So are the name of a command and a word behind it.
theorem tokenize_command (command : Command) {start name : String}
    (hstart : start = command.name ++ " ") (hname : IsWord name) :
    tokenize (start ++ name) = [command.name, name] := by
  have hcommand : IsWord command.name := by cases command <;> decide
  rw [hstart, tokenize_words hcommand hname]

-- A name without a space whose characters are all of a kind that the space is not.
theorem isWord_of_all {p : Char → Bool} (hspace : p ' ' = false) {name : String}
    (h : (name ≠ "" && name.toList.all p) = true) : IsWord name := by
  rw [Bool.and_eq_true, decide_eq_true_eq, List.all_eq_true] at h
  refine ⟨h.1, fun hmem => ?_⟩
  have hp := h.2 ' ' hmem
  rw [hspace] at hp
  exact absurd hp Bool.false_ne_true

/-! ### Lines that move -/

theorem run_cd (provider : Option Content.Provider) {name : String} {fs : FileSystem}
    (hname : IsWord name) (h : s.fileSystem.cd name = .ok fs) :
    (s.exec ("cd " ++ name)).run provider = (.silent, { s with fileSystem := fs }) := by
  have hline := tokenize_command .cd (show "cd " = "cd" ++ " " by decide) hname
  rw [exec_eq_perform .cd hline rfl, perform, Step.run, List.headD_cons, changeDir, h]
  rfl

/-- Lines that move say nothing and change nothing but the current path. -/
theorem run_follow (provider : Option Content.Provider) {fs : FileSystem}
    (hwords : ∀ name ∈ names, IsWord name) (h : s.fileSystem.follow names = .ok fs) :
    (∀ x ∈ s.exchanges provider (names.map ("cd " ++ ·)), x.outcome = .silent)
      ∧ s.after provider ((names.map ("cd " ++ ·)).map .line) = { s with fileSystem := fs } := by
  induction names generalizing s with
  | nil =>
    rw [FileSystem.follow_nil, Except.ok.injEq] at h
    exact ⟨List.forall_mem_nil _, by rw [← h]; rfl⟩
  | cons name rest ih =>
    rw [FileSystem.follow_cons] at h
    cases hcd : s.fileSystem.cd name with
    | error cause =>
      rw [hcd] at h
      cases h
    | ok next =>
      rw [hcd] at h
      have hrun := run_cd provider (hwords name List.mem_cons_self) hcd
      have hrest := ih (s := { s with fileSystem := next })
        (fun other hmem => hwords other (List.mem_cons_of_mem name hmem)) h
      rw [List.map_cons, exchanges, List.map_cons, after_line, hrun]
      exact ⟨List.forall_mem_cons.mpr ⟨rfl, hrest.1⟩, hrest.2⟩

/-- The way to a place that some words lead to from the root. -/
theorem leadsTo_of_follow (provider : Option Content.Provider) {cwd : String}
    (hwords : ∀ name ∈ names, IsWord name)
    (h : FileSystem.follow { s.fileSystem with cwd := Path.root } names
      = .ok { s.fileSystem with cwd := cwd }) :
    s.LeadsTo provider (s.wayTo names) (Path.segments cwd) := by
  rcases s.fileSystem.follow_up with ⟨top, htop, hup⟩
  have hplace : Path.segments top = Path.segments Path.root := htop.trans Path.segments_root.symm
  have hcovers : FileSystem.Covers { s.fileSystem with cwd := Path.root }
      { s.fileSystem with cwd := top } := ⟨hplace, fun _ => id, fun _ => id⟩
  rcases FileSystem.follow_covers h hcovers with ⟨last, hlast, hsame⟩
  have hall := (FileSystem.follow_append hup names).trans hlast
  have hway : s.wayTo names
      = (List.replicate s.fileSystem.place.length FileSystem.up ++ names).map ("cd " ++ ·) := by
    rw [wayTo, List.map_append, List.map_replicate]
    rfl
  have hallWords : ∀ name ∈ List.replicate s.fileSystem.place.length FileSystem.up ++ names,
      IsWord name := by
    intro name hmem
    rcases List.mem_append.mp hmem with htwo | hname
    · rw [List.eq_of_mem_replicate htwo]
      decide
    · exact hwords name hname
  rcases run_follow provider hallWords hall with ⟨hsilent, hafter⟩
  rw [← hway] at hsilent hafter
  exact ⟨hsilent, by rw [hafter]; exact hsame.place, by rw [hafter], by rw [hafter], by rw [hafter]⟩

theorem LeadsTo.here {provider : Option Content.Provider} {lines place : List String}
    (h : s.LeadsTo provider lines place) :
    (s.after provider (lines.map .line)).fileSystem.here
      = View.ofLayers (s.fileSystem.permanentTree.resolve place)
        (s.fileSystem.localTree.resolve place) := by
  rw [← h.permanentTree, ← h.localTree, ← h.place]
  rfl

/-- The way to a directory by the names that lead to it. -/
theorem leadsTo_of_resolve (provider : Option Content.Provider) (henter : Enterable names)
    (hwords : ∀ name ∈ names, IsWord name)
    (hfound : (s.fileSystem.permanentTree.resolve names).isSome = true
      ∨ (s.fileSystem.localTree.resolve names).isSome = true) :
    s.LeadsTo provider (s.wayTo names) names := by
  let top : FileSystem := { s.fileSystem with cwd := Path.root }
  have htop : top.place = [] := Path.segments_root
  have hdown : (top.permanentTree.resolve (top.place ++ names)).isSome = true
      ∨ (top.localTree.resolve (top.place ++ names)).isSome = true := by
    rw [htop]
    exact hfound
  rcases FileSystem.follow_down henter hdown with ⟨cwd, hcwd, hfollow⟩
  have hleads := leadsTo_of_follow provider hwords hfollow
  rw [hcwd, htop] at hleads
  exact hleads

theorem exists_leadsTo_of_reachable (provider : Option Content.Provider) {place : List String}
    (h : s.fileSystem.Reachable place) : ∃ names, s.LeadsTo provider (s.wayTo names) place := by
  rcases h with ⟨names, hwords, cwd, hcwd, hfollow⟩
  exact ⟨names, hcwd ▸ leadsTo_of_follow provider hwords hfollow⟩

-- At its place, a file of the local tree is shown.
theorem exists_run_cat (provider : Option Content.Provider) {name : String} (hname : IsWord name)
    (h : (s.fileSystem.localTree.fileAt? s.fileSystem.place name).isSome = true) :
    ∃ text, (s.exec ("cat " ++ name)).run provider = (.success text, s) := by
  have hline := tokenize_command .cat (show "cat " = "cat" ++ " " by decide) hname
  rcases FileSystem.exists_localFile_here h with ⟨text, htext⟩
  refine ⟨text, ?_⟩
  rw [exec_cat provider s hline, fileText, htext]
  rfl

/-! ### Places where a run has been -/

-- A line moves by a word, or lets the local tree grow, or does neither.
theorem reachable_exec (provider : Option Content.Provider)
    (h : s.fileSystem.Reachable s.fileSystem.place) (line : String) :
    let fs := (s.act provider (.line line)).2.fileSystem
    fs.Reachable fs.place := by
  intro fs
  have hfs : fs = (Call.ofWords? (tokenize line)).elim s.fileSystem s.fileSystem.afterCall :=
    act_fileSystem provider s (.line line)
  rw [hfs]
  cases hc : Call.ofWords? (tokenize line) with
  | none => exact h
  | some c =>
    rw [Option.elim_some, FileSystem.afterCall]
    cases hanswer : s.fileSystem.answer c with
    | error cause => exact h
    | ok next =>
      have hmade := FileSystem.answer_creation hanswer
      rcases ofWords?_eq_some_iff.mp hc with ⟨name, ⟨_, rfl⟩ | ⟨_, rfl⟩ | ⟨hwords, rfl⟩⟩
      · exact h.grow hmade.1 hmade.2
      · exact h.grow hmade.1 hmade.2
      · have hmem : name ∈ tokenize line := by
          rw [hwords]
          exact List.mem_cons_of_mem _ List.mem_cons_self
        exact h.cd (isWord_of_mem_tokenize hmem) hanswer

theorem reachable_place (provider : Option Content.Provider)
    (h : s.fileSystem.Reachable s.fileSystem.place) (lines : List String) :
    let fs := (s.after provider (lines.map .line)).fileSystem
    fs.Reachable fs.place := by
  induction lines generalizing s with
  | nil => exact h
  | cons line rest ih => exact ih (reachable_exec provider h line)

/-- A place where a run from the root has been can be reached from then on. -/
theorem reachable_after (provider : Option Content.Provider) (hroot : s.fileSystem.place = [])
    (first later : List String) :
    (s.after provider ((first ++ later).map .line)).fileSystem.Reachable
      (s.after provider (first.map .line)).fileSystem.place := by
  have hthen := reachable_place provider (s := s) (hroot ▸ s.fileSystem.reachable_root) first
  have hgrown := after_grown provider (s.after provider (first.map .line)) (later.map .line)
  rw [List.map_append, after_append]
  exact hthen.mono (fun _ => by rw [hgrown.1]; exact id) (fun _ => hgrown.2.2.isSome_resolve)

-- A created entry has a fit name, and was made where the run had come to.
theorem reachable_of_mem_journal (provider : Option Content.Provider)
    (hroot : s.fileSystem.place = []) {lines : List String} {made : Creation}
    (h : made ∈ s.journal provider (lines.map .line)) :
    let fs := (s.after provider (lines.map .line)).fileSystem
    match made with
    | .dir place name => FileSystem.isDirName name = true ∧ fs.Reachable place
    | .file place name => FileSystem.isFileName name = true ∧ fs.Reachable place := by
  rcases exists_of_mem_journal h with ⟨first, c, fs, hfirst, hanswer, hmade⟩
  rcases List.prefix_map_iff.mp hfirst with ⟨before, ⟨later, rfl⟩, rfl⟩
  have hplace := reachable_after provider hroot before later
  cases c with
  | mkdir name =>
    rcases Option.some.inj hmade
    exact ⟨(FileSystem.mkdir_eq_ok_iff.mp hanswer).1, hplace⟩
  | touch name =>
    rcases Option.some.inj hmade
    exact ⟨(FileSystem.touch_eq_ok_iff.mp hanswer).1, hplace⟩
  | cd name | ls | view path | read name => exact absurd hmade (by simp [Call.creation?])

/-- The way to every directory, from wherever the session is. Take any session
    and run any lines. Some names may lead to a directory in one of the trees,
    each of them a word of a line and a segment of a path, and none the way up.
    Then the lines that go up as often as the current path has segments, and down
    by these names, say nothing and succeed. They lead to exactly this
    directory, and leave the trees and the variables as they are. If the session
    began at the root, then such a way is there for every entry that the lines
    have created: into a directory, and to the place of a file, where its text
    is shown. -/
theorem every_directory_enterable (provider : Option Content.Provider) (s : Session)
    (lines : List String) :
    let t := s.after provider (lines.map .line)
    (∀ q, (∀ name ∈ q, name ≠ "" ∧ ' ' ∉ name.toList ∧ '/' ∉ name.toList ∧ name ≠ "..") →
      (t.fileSystem.permanentTree.resolve q).isSome = true
        ∨ (t.fileSystem.localTree.resolve q).isSome = true →
      t.LeadsTo provider (t.wayTo q) q
        ∧ (t.after provider ((t.wayTo q).map .line)).fileSystem.here
          = View.ofLayers (t.fileSystem.permanentTree.resolve q) (t.fileSystem.localTree.resolve q))
    ∧ (s.fileSystem.place = [] →
      (∀ place name, .dir place name ∈ s.journal provider (lines.map .line) →
        (t.fileSystem.localTree.resolve (place ++ [name])).isSome = true
          ∧ ∃ names, t.LeadsTo provider (t.wayTo names) (place ++ [name]))
      ∧ (∀ place name, .file place name ∈ s.journal provider (lines.map .line) →
        t.fileSystem.localTree.fileAt? place name = some ""
          ∧ ∃ names, t.LeadsTo provider (t.wayTo names) place
            ∧ let u := t.after provider ((t.wayTo names).map .line)
              ∃ text, (u.exec ("cat " ++ name)).run provider = (.success text, u))) := by
  intro t
  have hgrown := (after_grown provider s (lines.map .line)).2.2
  refine ⟨?directories, fun hroot => ⟨?madeDirs, ?madeFiles⟩⟩
  case directories =>
    intro q hnames hfound
    have henter : Enterable q :=
      fun name hmem => ⟨⟨(hnames name hmem).1, (hnames name hmem).2.2.1⟩, (hnames name hmem).2.2.2⟩
    have hwords : ∀ name ∈ q, IsWord name :=
      fun name hmem => ⟨(hnames name hmem).1, (hnames name hmem).2.1⟩
    have hleads := leadsTo_of_resolve provider henter hwords hfound
    exact ⟨hleads, hleads.here⟩
  case madeDirs =>
    intro place name hmem
    have hlocal : (t.fileSystem.localTree.resolve (place ++ [name])).isSome = true :=
      (hgrown.isIn_iff (.dir place name)).mpr (Or.inr hmem)
    rcases reachable_of_mem_journal provider hroot hmem with ⟨hname, hplace⟩
    have hup : name ≠ FileSystem.up := by
      rintro rfl
      exact absurd hname (by decide)
    have hreach := hplace.concat (isWord_of_all (by decide) hname)
      (FileSystem.isSegment_of_isDirName hname) hup hlocal
    exact ⟨hlocal, exists_leadsTo_of_reachable provider hreach⟩
  case madeFiles =>
    intro place name hmem
    have hfile : t.fileSystem.localTree.fileAt? place name = some "" := by
      rw [hgrown.fileAt?_eq, if_pos hmem]
    rcases reachable_of_mem_journal provider hroot hmem with ⟨hname, hplace⟩
    rcases exists_leadsTo_of_reachable provider hplace with ⟨names, hleads⟩
    refine ⟨hfile, names, hleads, exists_run_cat provider (isWord_of_all (by decide) hname) ?_⟩
    rw [hleads.localTree, hleads.place, hfile]
    rfl

/-- A directory that was made in one that was made, from inside the first. -/
theorem every_directory_enterable_made :
    let s : Session := { fileSystem := { permanentTree := { dirs := [("docs", {})] } } }
    let lines := ["mkdir x", "cd x", "mkdir y"]
    ((s.after none (lines.map .line)).fileSystem.localTree.resolve ["x", "y"]).isSome = true
      ∧ (s.after none (lines.map .line)).wayTo ["x", "y"] = ["cd ..", "cd x", "cd y"]
      ∧ (s.after none (lines.map .line)).LeadsTo none ["cd ..", "cd x", "cd y"] ["x", "y"] := by
  intro s lines
  have hfound : ((s.after none (lines.map .line)).fileSystem.localTree.resolve ["x", "y"]).isSome
      = true := by decide +kernel
  have hnames : ∀ name ∈ ["x", "y"],
      name ≠ "" ∧ ' ' ∉ name.toList ∧ '/' ∉ name.toList ∧ name ≠ ".." := by decide
  have hway : (s.after none (lines.map .line)).wayTo ["x", "y"] = ["cd ..", "cd x", "cd y"] := by
    decide +kernel
  rcases every_directory_enterable none s lines with ⟨hdirectories, _⟩
  rcases hdirectories ["x", "y"] hnames (Or.inr hfound) with ⟨hleads, _⟩
  exact ⟨hfound, hway, hway ▸ hleads⟩

end Session

end StrataShell
