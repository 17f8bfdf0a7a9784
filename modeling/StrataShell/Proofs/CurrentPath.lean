import StrataShell.Proofs.Run

/-!
# The Current Path Is a Stack of Names

The current path is kept as text. It is cut into names whenever it is followed,
a name is written behind it on the way down, and on the way up it is cut,
shortened and put together again. This module shows that the text never holds
anything but the names that led to the place, in canonical form. It can
therefore be replaced in every argument by a stack of names: moving down
pushes, moving up pops, and nothing else touches it.

The stack is read off the log, not off the state, so it is known from outside.
The invariant `Located` ties the two together. It needs that every directory
name of both trees is a segment: a name that is empty or holds the separator
would be written into the path and not be found there again. Names that are
created in a run pass the check for new directories and are segments anyway.

That a stack comes back to its height without going below it restores it is
then a fact about prefixes: what lies under the height is never touched.

## Main definitions

* `Dir.Addressable`: Every directory name of a tree is a segment.
* `LogEntry.move`: What an entry of the log does to the stack.
* `Session.stack`: The names that lead to where a run has ended.
* `Located`: A file system stands at a stack of names.

## Theorems

* `Located.answer`: A call that succeeds moves along the stack.
* `act_located`, `after_located`: So does an action, and a run.
* `prefix_after`: A run that never goes above a place leaves the way to it.
* `cwd_eq_stack`: The current path is the canonical path of the stack.
-/

namespace StrataShell

/-- Every directory name of a tree, at every depth, is a segment. -/
def Dir.Addressable {F : Type} (d : Dir F) : Prop :=
  ∀ place, ∀ name ∈ d.dirNamesAt place, Path.IsSegment name

/-- The stack of names after a call that succeeds. -/
def Call.move (stack : List String) : Call → List String
  | .cd name => if name = FileSystem.up then stack.dropLast else stack ++ [name]
  | .mkdir _ | .touch _ | .ls | .view _ | .read _ => stack

/-- The stack of names after what an entry of the log records. -/
def LogEntry.move (stack : List String) (e : LogEntry) : List String :=
  if e.reply.accepted then e.action.call?.elim stack (Call.move stack) else stack

/-- The names that lead from the root to where a run has ended, if it began at
    the root. -/
def Session.stack (provider : Option Content.Provider) (s : Session) (actions : List Action) :
    List String :=
  (s.log provider actions).foldl LogEntry.move []

/-- A file system stands at a stack of names: its current path is the canonical
    one, and it exists. -/
structure Located (fs : FileSystem) (stack : List String) : Prop where
  cwd : fs.cwd = Path.ofSegments stack
  names : ∀ name ∈ stack, Path.IsSegment name ∧ name ≠ FileSystem.up
  found : (fs.permanentTree.resolve stack).isSome = true
    ∨ (fs.localTree.resolve stack).isSome = true
  permanentNames : fs.permanentTree.Addressable
  localNames : fs.localTree.Addressable

namespace Located

variable {fs fs' : FileSystem} {stack : List String}

-- At the root every file system stands at the empty stack.
theorem of_root {permanentTree : Dir FileContent} {localTree : Dir String}
    (hp : permanentTree.Addressable) (hl : localTree.Addressable) :
    Located { permanentTree := permanentTree, localTree := localTree } [] where
  cwd := Path.ofSegments_nil.symm
  names := fun _ hmem => absurd hmem List.not_mem_nil
  found := Or.inl rfl
  permanentNames := hp
  localNames := hl

theorem segments (h : Located fs stack) : ∀ name ∈ stack, Path.IsSegment name :=
  fun name hmem => (h.names name hmem).1

theorem place_eq (h : Located fs stack) : fs.place = stack := by
  rw [FileSystem.place, h.cwd, Path.segments_ofSegments h.segments]

-- One pop, by the way up.
theorem up (h : Located fs stack) :
    Located { fs with cwd := Path.parent fs.cwd } stack.dropLast where
  cwd := by rw [h.cwd, Path.parent_ofSegments h.segments]
  names := fun name hmem => h.names name (List.dropLast_subset stack hmem)
  found := by
    rcases List.dropLast_prefix stack with ⟨last, hlast⟩
    have hfound := h.found
    rw [← hlast] at hfound
    exact hfound.imp Dir.isSome_resolve_of_append Dir.isSome_resolve_of_append
  permanentNames := h.permanentNames
  localNames := h.localNames

-- One push, by the name of a directory of either tree.
theorem down (h : Located fs stack) {name : String} (hup : name ≠ FileSystem.up)
    (hdir : fs.hasDir name = true) :
    Located { fs with cwd := Path.join fs.cwd name } (stack ++ [name]) := by
  rw [FileSystem.hasDir_iff, h.place_eq] at hdir
  have hsegment : Path.IsSegment name := by
    rcases hdir with hp | hl
    · exact h.permanentNames stack name (Dir.mem_dirNamesAt_iff.mpr hp)
    · exact h.localNames stack name (Dir.mem_dirNamesAt_iff.mpr hl)
  refine ⟨?_, fun other hmem => ?_, hdir, h.permanentNames, h.localNames⟩
  · rw [h.cwd, Path.join_ofSegments h.segments]
  · rcases List.mem_append.mp hmem with hold | hnew
    · exact h.names other hold
    · rw [List.mem_singleton.mp hnew]
      exact ⟨hsegment, hup⟩

-- A creation leaves the place where it is, and makes no name that is no segment.
theorem grow (h : Located fs stack) {made : Creation} (hfs : fs' = fs.withCreation made)
    (hgrows : made.Grows fs.localTree fs'.localTree)
    (hname : ∀ place name, made = .dir place name → Path.IsSegment name) :
    Located fs' stack where
  cwd := by rw [hfs, FileSystem.withCreation, h.cwd]
  names := h.names
  found := by
    have hfound := h.found.imp_right hgrows.isSome_resolve
    rw [hfs] at hfound ⊢
    exact hfound
  permanentNames := by
    rw [hfs]
    exact h.permanentNames
  localNames := by
    intro place name hmem
    rcases hgrows.mem_dirNamesAt_iff.mp hmem with hold | hnew
    · exact h.localNames place name hold
    · exact hname place name hnew

/-- A call that succeeds moves along the stack. -/
theorem answer (h : Located fs stack) {c : Call} (hc : fs.answer c = .ok fs') :
    Located fs' (c.move stack) := by
  have hmade := FileSystem.answer_creation hc
  cases c with
  | cd name =>
    rcases FileSystem.cd_eq_ok_iff.mp hc with ⟨hup, _, hfs⟩ | ⟨hup, hdir, hfs⟩
    · rw [hfs, Call.move, if_pos hup]
      exact h.up
    · rw [hfs, Call.move, if_neg hup]
      exact h.down hup hdir
  | mkdir name =>
    rcases FileSystem.mkdir_eq_ok_iff.mp hc with ⟨hname, _⟩
    refine h.grow hmade.1 hmade.2 (fun place other heq => ?_)
    injection heq with _ hother
    exact hother ▸ FileSystem.isSegment_of_isDirName hname
  | touch name => exact h.grow hmade.1 hmade.2 (fun place other heq => by cases heq)
  | ls | view path | read name =>
    rw [← Except.ok.inj hc]
    exact h

end Located

namespace Session

variable {s : Session} {stack : List String}

theorem move_of_not_asks {c : Call} (h : ¬ c.asks = true) (stack : List String) :
    c.move stack = stack := by
  cases c <;> first | rfl | exact absurd rfl h

-- What the log records of an action is the move of its call, if that succeeds.
theorem move_entry (provider : Option Content.Provider) (h : Located s.fileSystem stack)
    (a : Action) :
    (s.entry provider a).move stack = match a.call? with
      | none => stack
      | some c => match s.fileSystem.answer c with
        | .ok _ => c.move stack
        | .error _ => stack := by
  rw [LogEntry.move, entry]
  cases hc : a.call? with
  | none => simp only [Option.elim_none, ite_self]
  | some c =>
    simp only [Option.elim_some]
    by_cases hasks : c.asks = true
    · rcases accepted_cases provider s hc hasks with
        ⟨⟨fs, hok⟩, haccepted⟩ | ⟨⟨cause, herror⟩, hrefused⟩ | ⟨hup, hplace, herror⟩
      · rw [hok, if_pos haccepted]
      · rw [herror, if_neg (Bool.eq_false_iff.mp hrefused)]
      · -- At the root there is nothing to pop, whatever the reply.
        have hnil : stack = [] := h.place_eq ▸ hplace
        rw [herror, hup, Call.move, if_pos rfl, hnil, List.dropLast_nil, ite_self]
    · -- To be told something moves nobody, whether or not there was an answer.
      rw [FileSystem.answer_of_not_asks hasks, move_of_not_asks hasks, ite_self]

/-- An action moves along the stack as the log records of it. -/
theorem act_located (provider : Option Content.Provider) (h : Located s.fileSystem stack)
    (a : Action) : Located (s.act provider a).2.fileSystem ((s.entry provider a).move stack) := by
  rw [act_fileSystem, move_entry provider h]
  cases a.call? with
  | none => exact h
  | some c =>
    simp only [Option.elim_some, FileSystem.afterCall]
    cases hanswer : s.fileSystem.answer c with
    | ok fs => exact h.answer hanswer
    | error cause => exact h

/-- A run moves along the stack as its log says. -/
theorem after_located (provider : Option Content.Provider) (h : Located s.fileSystem stack)
    (actions : List Action) :
    Located (s.after provider actions).fileSystem
      ((s.log provider actions).foldl LogEntry.move stack) := by
  induction actions generalizing s stack with
  | nil => exact h
  | cons a rest ih => exact ih (act_located provider h a)

-- A stack that is not popped below a height keeps what lies under it.
theorem prefix_move {base : List String} (e : LogEntry) (h : base <+: stack)
    (hlength : base.length ≤ (e.move stack).length) : base <+: e.move stack := by
  revert hlength
  rw [LogEntry.move]
  by_cases haccepted : e.reply.accepted = true
  · rw [if_pos haccepted]
    cases e.action.call? with
    | none => exact fun _ => h
    | some c =>
      cases c with
      | cd name =>
        rw [Option.elim_some, Call.move]
        by_cases hup : name = FileSystem.up
        · rw [if_pos hup]
          exact List.prefix_of_prefix_length_le h (List.dropLast_prefix stack)
        · rw [if_neg hup]
          exact fun _ => h.trans (List.prefix_append stack [name])
      | mkdir name | touch name | ls | view path | read name => exact fun _ => h
  · rw [if_neg haccepted]
    exact fun _ => h

/-- A run that never goes above a place leaves the way to it as it is. -/
theorem prefix_after (provider : Option Content.Provider) (h : Located s.fileSystem stack)
    {base : List String} (hbase : base <+: stack) {actions : List Action}
    (hdepth : ∀ first, first <+: actions →
      base.length ≤ (s.after provider first).fileSystem.place.length) :
    base <+: (s.log provider actions).foldl LogEntry.move stack := by
  induction actions generalizing s stack with
  | nil => exact hbase
  | cons a rest ih =>
    have hnext := act_located provider h a
    have hlength := hdepth [a] (List.cons_prefix_cons.mpr ⟨rfl, List.nil_prefix⟩)
    rw [after_cons, after_nil, hnext.place_eq] at hlength
    refine ih hnext (prefix_move _ hbase hlength) (fun first hfirst => ?_)
    exact hdepth (a :: first) (List.cons_prefix_cons.mpr ⟨rfl, hfirst⟩)

/-- To go down, to wander about below and come back, and to go up, is to come
    back to the same path. -/
theorem cd_round_trip (provider : Option Content.Provider) (h : Located s.fileSystem stack)
    {name : String} {u : Session} (hup : name ≠ FileSystem.up)
    (hcd : s.fileSystem.cd name = .ok u.fileSystem) {actions : List Action}
    (hdepth : ∀ first, first <+: actions →
      u.fileSystem.place.length ≤ (u.after provider first).fileSystem.place.length)
    (hback : (u.after provider actions).fileSystem.place.length = u.fileSystem.place.length) :
    (u.after provider actions).fileSystem.cd FileSystem.up
      = .ok { (u.after provider actions).fileSystem with cwd := s.fileSystem.cwd } := by
  have hdown : Located u.fileSystem (stack ++ [name]) := by
    have hmoved := h.answer (c := .cd name) hcd
    rw [Call.move, if_neg hup] at hmoved
    exact hmoved
  have hend := after_located provider hdown actions
  -- The excursion ends on the height it began on, so what is there was never touched.
  have hsame : stack ++ [name]
      = (u.log provider actions).foldl LogEntry.move (stack ++ [name]) := by
    rw [hdown.place_eq] at hdepth hback
    rw [hend.place_eq] at hback
    exact (prefix_after provider hdown (List.prefix_refl _) hdepth).eq_of_length hback.symm
  rw [← hsame] at hend
  refine FileSystem.cd_eq_ok_iff.mpr (Or.inl ⟨rfl, ?_, ?_⟩)
  · rw [hend.place_eq]
    exact List.append_ne_nil_of_right_ne_nil stack (List.cons_ne_nil name [])
  · rw [hend.cwd, Path.parent_ofSegments hend.segments, List.dropLast_concat, h.cwd]

/-- The current path is the canonical path of the stack of names that the run
    has entered and not left, whatever else was done, with or without success.
    It exists in one of the trees. A move down pushes the name. A move up pops
    one, except at the root, where it is refused and nothing changes; and every
    other call leaves the stack. A move down is therefore undone by the move up
    that follows, also after an excursion that comes back to the same depth and
    never goes above it: the path is the same text again. -/
theorem cwd_eq_stack (provider : Option Content.Provider) (permanentTree : Dir FileContent)
    (localTree : Dir String) (vars : Variables) (hp : permanentTree.Addressable)
    (hl : localTree.Addressable) (actions : List Action) :
    let s : Session :=
      { fileSystem := { permanentTree := permanentTree, localTree := localTree }, vars := vars }
    let t := s.after provider actions
    let names := s.stack provider actions
    t.fileSystem.cwd = Path.ofSegments names
      ∧ (∀ name ∈ names, name ≠ "" ∧ Path.separator ∉ name.toList ∧ name ≠ FileSystem.up)
      ∧ ((t.fileSystem.permanentAt t.fileSystem.cwd).isSome = true
        ∨ (t.fileSystem.localAt t.fileSystem.cwd).isSome = true)
      ∧ (∀ name fs, name ≠ FileSystem.up → t.fileSystem.cd name = .ok fs →
          s.stack provider (actions ++ [.call (.cd name)]) = names ++ [name])
      ∧ (names ≠ [] → (∃ fs, t.fileSystem.cd FileSystem.up = .ok fs)
          ∧ s.stack provider (actions ++ [.call (.cd FileSystem.up)]) = names.dropLast)
      ∧ (names = [] → t.fileSystem.cd FileSystem.up = .error .alreadyAtRoot
          ∧ (t.act provider (.call (.cd FileSystem.up))).2 = t)
      ∧ (∀ c, (∀ name fs, c = .cd name → t.fileSystem.cd name ≠ .ok fs) →
          s.stack provider (actions ++ [.call c]) = names)
      ∧ ∀ name fs excursion, name ≠ FileSystem.up → t.fileSystem.cd name = .ok fs →
          let u := (t.act provider (.call (.cd name))).2
          let v := u.after provider excursion
          (∀ first, first <+: excursion →
            u.fileSystem.place.length ≤ (u.after provider first).fileSystem.place.length) →
          v.fileSystem.place.length = u.fileSystem.place.length →
          ∃ back, v.fileSystem.cd FileSystem.up = .ok back ∧ back.cwd = t.fileSystem.cwd := by
  intro s t names
  have h : Located t.fileSystem names := after_located provider (Located.of_root hp hl) actions
  have hnext : ∀ c, s.stack provider (actions ++ [.call c])
      = match t.fileSystem.answer c with
        | .ok _ => c.move names
        | .error _ => names := by
    intro c
    rw [stack, log_append, List.foldl_append]
    exact move_entry provider h (.call c)
  refine ⟨h.cwd, fun name hmem => ?_, ?_, ?_, ?_, ?_, ?_, ?_⟩
  · exact ⟨(h.names name hmem).1.1, (h.names name hmem).1.2, (h.names name hmem).2⟩
  · have hfound := h.found
    rw [← h.place_eq] at hfound
    exact hfound
  · intro name fs hup hcd
    have hanswer : t.fileSystem.answer (.cd name) = .ok fs := hcd
    rw [hnext, hanswer, Call.move, if_neg hup]
  · intro hne
    have hcd : t.fileSystem.cd FileSystem.up
        = .ok { t.fileSystem with cwd := Path.parent t.fileSystem.cwd } := by
      refine FileSystem.cd_eq_ok_iff.mpr (Or.inl ⟨rfl, ?_, rfl⟩)
      rw [h.place_eq]
      exact hne
    have hanswer : t.fileSystem.answer (.cd FileSystem.up) = _ := hcd
    exact ⟨⟨_, hcd⟩, by rw [hnext, hanswer, Call.move, if_pos rfl]⟩
  · intro hnil
    have hcd : t.fileSystem.cd FileSystem.up = .error .alreadyAtRoot := by
      refine FileSystem.cd_eq_error_iff.mpr (Or.inl ⟨rfl, ?_, rfl⟩)
      rw [h.place_eq]
      exact hnil
    refine ⟨hcd, ?_⟩
    simp only [act, FileSystem.afterCall, FileSystem.answer, hcd]
  · intro c hother
    rw [hnext]
    cases hanswer : t.fileSystem.answer c with
    | error cause => rfl
    | ok fs =>
      cases c with
      | cd name => exact absurd hanswer (hother name fs rfl)
      | mkdir name | touch name | ls | view path | read name => rfl
  · intro name fs excursion hup hcd u v hdepth hback
    have hu : t.fileSystem.cd name = .ok u.fileSystem := by
      simp only [u, act, FileSystem.afterCall, FileSystem.answer, hcd]
    exact ⟨_, cd_round_trip provider h hup hu hdepth hback, rfl⟩

-- A tree without entries has no name that is no segment.
theorem addressable_empty {F : Type} : (Dir.empty : Dir F).Addressable := by
  intro place name hmem
  rw [Dir.dirNamesAt, Dir.entriesAt_empty] at hmem
  split at hmem <;> exact absurd hmem List.not_mem_nil

-- A tree of one empty directory.
theorem addressable_singleton {F : Type} {name : String} (h : Path.IsSegment name) :
    ({ dirs := [(name, {})] } : Dir F).Addressable := by
  intro place other hmem
  cases place with
  | nil => exact List.mem_singleton.mp hmem ▸ h
  | cons first later =>
    have hbelow : Dir.entriesAt (first :: later) ({ dirs := [(name, {})] } : Dir F)
        = if first = name then Dir.entriesAt later Dir.empty else none :=
      Dir.entriesAt_withDir Dir.empty Dir.empty name first later
    rw [Dir.dirNamesAt, hbelow] at hmem
    split at hmem
    · exact addressable_empty later other hmem
    · exact absurd hmem List.not_mem_nil

/-- A walk into one tree and back, and into the other, ends at the path of
    that tree. -/
theorem cwd_eq_stack_of_walk :
    let permanentTree : Dir FileContent := { dirs := [("docs", {})] }
    let localTree : Dir String := { dirs := [("notes", {})] }
    let s : Session := { fileSystem := { permanentTree := permanentTree, localTree := localTree } }
    let walk : List Action := [.call (.cd "docs"), .call (.cd ".."), .call (.cd "notes")]
    permanentTree.Addressable ∧ localTree.Addressable
      ∧ (s.after none walk).fileSystem.cwd = "/notes" := by
  intro permanentTree localTree s walk
  have hp : permanentTree.Addressable := addressable_singleton (by decide)
  have hl : localTree.Addressable := addressable_singleton (by decide)
  exact ⟨hp, hl, (cwd_eq_stack none permanentTree localTree [] hp hl walk).1.trans (by decide)⟩

end Session

end StrataShell
