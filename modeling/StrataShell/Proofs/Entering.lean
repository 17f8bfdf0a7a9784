import StrataShell.CommandLine.Run
import StrataShell.Proofs.Run

/-!
# Entering One Directory at a Time

A move down looks its name up as a whole among the directories of the place,
and then writes it behind the path, where the separators in it begin to count.
For the names that can be created here the two readings agree. A tree that is
supplied from outside may have any names: one that holds a separator is found,
the path grows by all its segments, and they lead to another place or to none.

This module says for which trees that can happen. A name can be entered only
where the user can stand, so it is a question of the places that can be reached
one segment at a time. If none of them has a directory whose name holds the
separator, no run ever comes to one; and if one has, the run that walks there
does.

## Main definitions

* `Enterable`: A list of names that can be walked along.
* `Dir.Plain`: No reachable directory of a tree has a separator in its name.
* `walk`: The run that walks along some names.

## Theorems

* `place_of_cd`: A move down appends the segments of its name.
* `exists_cd_eq_ok`: A way that leads somewhere can be entered.
* `Plain.answer`, `plain_after`: Plain trees stay so, and so do the places in
  them.
* `after_walk`: A run can walk along any names that lead somewhere.
* `plain_iff`: The trees are plain exactly when no run finds a separator.
* `cd_single_segment_iff`: When every move down is by one segment.
-/

namespace StrataShell

/-- A list of names that can be walked along: each is a segment, and none leads
    back up. -/
def Enterable (names : List String) : Prop :=
  ∀ name ∈ names, Path.IsSegment name ∧ name ≠ FileSystem.up

/-- No directory of a tree has a separator in its name, at any place that can be
    walked to. -/
def Dir.Plain {F : Type} (d : Dir F) : Prop :=
  ∀ place, Enterable place → ∀ name ∈ d.dirNamesAt place, Path.separator ∉ name.toList

/-- The run that walks along some names. -/
def walk (names : List String) : List Action :=
  names.map (fun name => .call (.cd name))

namespace FileSystem

variable {fs fs' : FileSystem} {name : String}

/-- A move down appends the segments of its name. -/
theorem place_of_cd (h : fs.cd name = .ok fs') (hup : name ≠ up) :
    fs'.place = fs.place ++ Path.segments name := by
  rcases cd_eq_ok_iff.mp h with ⟨hname, _, _⟩ | ⟨_, _, hfs⟩
  · exact absurd hname hup
  · rw [hfs, place, Path.segments_join]
    rfl

/-- The next name can be entered on a way that leads somewhere in one of the
    trees. -/
theorem exists_cd_eq_ok {rest : List String} (hname : Path.IsSegment name) (hup : name ≠ up)
    (hfound : (fs.permanentTree.resolve (fs.place ++ name :: rest)).isSome = true
      ∨ (fs.localTree.resolve (fs.place ++ name :: rest)).isSome = true) :
    ∃ cwd, fs.cd name = .ok { fs with cwd := cwd } ∧ Path.segments cwd = fs.place ++ [name] := by
  rw [List.append_cons] at hfound
  have hdir : fs.hasDir name = true :=
    hasDir_iff.mpr (hfound.imp Dir.isSome_resolve_of_append Dir.isSome_resolve_of_append)
  have hcd := cd_eq_ok_iff.mpr (Or.inr ⟨hup, hdir, rfl⟩)
  have hplace := place_of_cd hcd hup
  rw [Path.segments_of_isSegment hname] at hplace
  exact ⟨Path.join fs.cwd name, hcd, hplace⟩

/-- Both trees are plain, and the current path is one that can be walked. -/
structure Plain (fs : FileSystem) : Prop where
  place : Enterable fs.place
  permanentNames : fs.permanentTree.Plain
  localNames : fs.localTree.Plain

namespace Plain

-- What can be entered has no separator.
theorem notMem_of_hasDir (h : Plain fs) (hdir : fs.hasDir name = true) :
    Path.separator ∉ name.toList := by
  rcases hasDir_iff.mp hdir with hp | hl
  · exact h.permanentNames fs.place h.place name (Dir.mem_dirNamesAt_iff.mpr hp)
  · exact h.localNames fs.place h.place name (Dir.mem_dirNamesAt_iff.mpr hl)

-- A creation leaves the place where it is, and makes no name with a separator.
theorem grow (h : Plain fs) {made : Creation} (hfs : fs' = fs.withCreation made)
    (hgrows : made.Grows fs.localTree fs'.localTree)
    (hname : ∀ place name, made = .dir place name → Path.IsSegment name) : Plain fs' where
  place := hfs ▸ h.place
  permanentNames := hfs ▸ h.permanentNames
  localNames := by
    intro place hplace name hmem
    rcases hgrows.mem_dirNamesAt_iff.mp hmem with hold | hnew
    · exact h.localNames place hplace name hold
    · exact (hname place name hnew).2

/-- A call that succeeds leaves plain trees plain, and the path one that can be
    walked. -/
theorem answer (h : Plain fs) {c : Call} (hc : fs.answer c = .ok fs') : Plain fs' := by
  have hmade := answer_creation hc
  cases c with
  | cd name =>
    rcases cd_eq_ok_iff.mp hc with ⟨_, _, hfs⟩ | ⟨hup, hdir, hfs⟩
    · refine ⟨fun other hmem => ?_, hfs ▸ h.permanentNames, hfs ▸ h.localNames⟩
      rw [hfs, FileSystem.place, Path.segments_parent] at hmem
      exact h.place other (List.dropLast_subset _ hmem)
    · refine ⟨fun other hmem => ?_, hfs ▸ h.permanentNames, hfs ▸ h.localNames⟩
      rw [place_of_cd hc hup] at hmem
      rcases List.mem_append.mp hmem with hold | hnew
      · exact h.place other hold
      · -- The segments of the name are the name, or there are none.
        have hsegment := Path.isSegment_of_mem_segments hnew
        by_cases hempty : name = ""
        · rw [hempty] at hnew
          exact absurd hnew List.not_mem_nil
        · rw [Path.segments_of_isSegment ⟨hempty, h.notMem_of_hasDir hdir⟩,
            List.mem_singleton] at hnew
          exact ⟨hsegment, hnew ▸ hup⟩
  | mkdir name =>
    rcases mkdir_eq_ok_iff.mp hc with ⟨hname, _⟩
    refine h.grow hmade.1 hmade.2 (fun place other heq => ?_)
    injection heq with _ hother
    exact hother ▸ isSegment_of_isDirName hname
  | touch name => exact h.grow hmade.1 hmade.2 (fun place other heq => by cases heq)
  | ls | view path | read name =>
    rw [← Except.ok.inj hc]
    exact h

end Plain

end FileSystem

namespace Session

theorem plain_after (provider : Option Content.Provider) {s : Session}
    (h : s.fileSystem.Plain) (actions : List Action) :
    (s.after provider actions).fileSystem.Plain := by
  refine after_induction provider h (fun fs c hplain => ?_) actions
  rw [FileSystem.afterCall]
  cases hc : fs.answer c with
  | error cause => exact hplain
  | ok fs' => exact hplain.answer hc

/-- A run can walk along any names that lead somewhere in one of the trees, one
    after the other. -/
theorem after_walk (provider : Option Content.Provider) (s : Session) {names : List String}
    (hnames : Enterable names)
    (hfound : (s.fileSystem.permanentTree.resolve (s.fileSystem.place ++ names)).isSome = true
      ∨ (s.fileSystem.localTree.resolve (s.fileSystem.place ++ names)).isSome = true) :
    let t := s.after provider (walk names)
    t.fileSystem.permanentTree = s.fileSystem.permanentTree
      ∧ t.fileSystem.localTree = s.fileSystem.localTree
      ∧ t.fileSystem.place = s.fileSystem.place ++ names := by
  induction names generalizing s with
  | nil => exact ⟨rfl, rfl, (List.append_nil _).symm⟩
  | cons name rest ih =>
    intro t
    have hname := hnames name List.mem_cons_self
    rcases FileSystem.exists_cd_eq_ok hname.1 hname.2 hfound with ⟨cwd, hcd, hplace⟩
    let next : FileSystem := { s.fileSystem with cwd := cwd }
    have hnext : next.place = s.fileSystem.place ++ [name] := hplace
    have hact : (s.act provider (.call (.cd name))).2 = { s with fileSystem := next } := by
      rw [act, FileSystem.afterCall, FileSystem.answer, hcd]
    rw [List.append_cons] at hfound
    have hrest := ih { s with fileSystem := next }
      (fun other hmem => hnames other (List.mem_cons_of_mem name hmem)) (hnext.symm ▸ hfound)
    simp only [t, walk, List.map_cons, after_cons, hact]
    rw [List.append_cons, ← hnext]
    exact hrest

/-- From the root, the trees are plain exactly when no run comes to a directory
    with a separator in its name. -/
theorem plain_iff (provider : Option Content.Provider) {s : Session}
    (hroot : s.fileSystem.place = []) :
    s.fileSystem.permanentTree.Plain ∧ s.fileSystem.localTree.Plain ↔
      ∀ actions name, (s.after provider actions).fileSystem.hasDir name = true →
        Path.separator ∉ name.toList := by
  constructor
  · rintro ⟨hp, hl⟩ actions name hdir
    have hstart : s.fileSystem.Plain := by
      refine ⟨fun other hmem => ?_, hp, hl⟩
      rw [hroot] at hmem
      exact absurd hmem List.not_mem_nil
    exact (plain_after provider hstart actions).notMem_of_hasDir hdir
  · intro h
    -- The run that walks to the place finds the name there.
    have hreach : ∀ place name, Enterable place →
        (s.fileSystem.permanentTree.resolve (place ++ [name])).isSome = true
          ∨ (s.fileSystem.localTree.resolve (place ++ [name])).isSome = true →
        Path.separator ∉ name.toList := by
      intro place name hplace hfound
      have hway := hfound.imp Dir.isSome_resolve_of_append Dir.isSome_resolve_of_append
      have hwalk := after_walk provider s hplace (by rw [hroot]; exact hway)
      refine h (walk place) name (FileSystem.hasDir_iff.mpr ?_)
      rw [hwalk.1, hwalk.2.1, hwalk.2.2, hroot]
      exact hfound
    refine ⟨fun place hplace name hmem => ?_, fun place hplace name hmem => ?_⟩
    · exact hreach place name hplace (Or.inl (Dir.mem_dirNamesAt_iff.mp hmem))
    · exact hreach place name hplace (Or.inr (Dir.mem_dirNamesAt_iff.mp hmem))

-- A name is refused, with nothing changed, unless a directory has it.
theorem act_cd_eq_iff (provider : Option Content.Provider) (s : Session) {name : String}
    (hup : name ≠ FileSystem.up) :
    s.act provider (.call (.cd name)) = (.done (.error (.badCommand "cd")), s)
      ↔ s.fileSystem.hasDir name = false := by
  cases hdir : s.fileSystem.hasDir name with
  | true =>
    have hcd := FileSystem.cd_eq_ok_iff.mpr (Or.inr ⟨hup, hdir, rfl⟩)
    simp [act, reply, FileSystem.answer, hcd, Except.map]
  | false =>
    have hcd := FileSystem.cd_eq_error_iff.mpr (Or.inr ⟨hup, hdir, rfl⟩)
    simp [act, reply, FileSystem.answer, FileSystem.afterCall, hcd, Except.map]

/-- When every move down is by one segment. Begin at the root of two trees with
    any names in them, and do anything. A move down always appends the segments
    of its name. That names with a separator are all refused, with nothing
    changed, is the same as that every move down is by exactly the name that was
    given; and it is so exactly if both trees are plain. -/
theorem cd_single_segment_iff (provider : Option Content.Provider)
    (permanentTree : Dir FileContent) (localTree : Dir String) (vars : Variables) :
    let s : Session :=
      { fileSystem := { permanentTree := permanentTree, localTree := localTree }, vars := vars }
    ((∀ actions name, Path.separator ∈ name.toList →
        let t := s.after provider actions
        t.act provider (.call (.cd name)) = (.done (.error (.badCommand "cd")), t))
      ↔ permanentTree.Plain ∧ localTree.Plain)
    ∧ ((∀ actions name fs, name ≠ "" → name ≠ FileSystem.up →
        let t := s.after provider actions
        t.fileSystem.cd name = .ok fs → fs.place = t.fileSystem.place ++ [name])
      ↔ permanentTree.Plain ∧ localTree.Plain)
    ∧ ∀ actions name fs, name ≠ FileSystem.up →
        let t := s.after provider actions
        t.fileSystem.cd name = .ok fs →
          fs.place = t.fileSystem.place ++ Path.segments name := by
  intro s
  have hplain := plain_iff (s := s) provider Path.segments_root
  -- The way up has no separator in its name, and so is none of these moves.
  have hne : ∀ name, Path.separator ∈ name.toList → name ≠ FileSystem.up := by
    rintro name hmem rfl
    exact absurd hmem (by decide)
  refine ⟨?refused, ?single, ?place⟩
  case refused =>
    rw [hplain]
    constructor
    · intro h actions name hdir hmem
      have hfree := (act_cd_eq_iff provider _ (hne name hmem)).mp (h actions name hmem)
      rw [hdir] at hfree
      exact Bool.noConfusion hfree
    · intro h actions name hmem
      refine (act_cd_eq_iff provider _ (hne name hmem)).mpr (Bool.eq_false_iff.mpr ?_)
      exact fun hdir => h actions name hdir hmem
  case single =>
    rw [hplain]
    constructor
    · intro h actions name hdir hmem
      have hup := hne name hmem
      have hempty : name ≠ "" := by
        rintro rfl
        exact List.not_mem_nil hmem
      have hcd := FileSystem.cd_eq_ok_iff.mpr (Or.inr ⟨hup, hdir, rfl⟩)
      have hplace := h actions name _ hempty hup hcd
      rw [FileSystem.place_of_cd hcd hup, List.append_cancel_left_eq,
        Path.segments_eq_singleton_iff] at hplace
      exact hplace.2 hmem
    · intro h actions name fs hempty hup t hcd
      rcases FileSystem.cd_eq_ok_iff.mp hcd with ⟨hname, _⟩ | ⟨_, hdir, _⟩
      · exact absurd hname hup
      · rw [FileSystem.place_of_cd hcd hup,
          Path.segments_of_isSegment ⟨hempty, h actions name hdir⟩]
  case place =>
    intro actions name fs hup t hcd
    exact FileSystem.place_of_cd hcd hup

/-- A configured tree with one directory, whose name holds a separator. The name
    is entered from the root, and the path has two segments and leads nowhere. -/
theorem cd_two_segments :
    (Config.ofToml? "[permanent.dirs.\"a/b\"]").map (fun config =>
        let result := (CommandLine.session config).act none (.call (.cd "a/b"))
        (result.1.accepted, result.2.fileSystem.cwd, result.2.fileSystem.place,
          (result.2.fileSystem.permanentAt "/a/b").isNone, result.2.fileSystem.here.isEmpty))
      = some (true, "/a/b", ["a", "b"], true, true) := by
  decide +kernel

end Session

end StrataShell
