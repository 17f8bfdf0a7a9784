import StrataShell.Proofs.Journal

/-!
# Creations at One Place Commute

A creation is granted or refused for reasons of its own name: whether the name is
fit, whether an entry of the kind is there already, and whether the current path
exists in the local tree. Another creation at the same place has no say in any of
these. It makes a different entry, and the current path is not what it makes. So a
list of different creations is answered in the same way in every order, each as if
it were alone, and the trees in the end differ in the order of the new entries only.

That two trees differ in nothing else is a statement about every depth, and
`EqUpToOrder` says it by recursion on the trees. What is known of a tree that has
grown is what it has at each place; `EqUpToOrder.of_lookups` leads from the one to
the other.

## Main definitions

* `Dir.EqUpToOrder`: Two trees are equal as maps at every depth.
* `Call.creates`: A call asks for something to be created.
* `FileSystem.verdict`: What a call that asks for a change is told.

## Theorems

* `EqUpToOrder.of_lookups`: Trees with the same entries at the same places are equal
  as maps.
* `Grown.eqUpToOrder`: The same creations in two orders make equal trees.
* `verdict_congr`: What a creation is told rests on its own entry.
* `verdict_afterCall`: Another creation at the place makes no difference to it.
* `log_of_creates`: Different creations are answered as if each were alone.
* `creations_commute`: In every order they are answered alike and make the same tree.
-/

namespace StrataShell

namespace Dir

variable {F : Type}

/-- Two trees are equal as maps at every depth: they have the same files with the
    same contents and the same names of directories, and directories of one name
    are equal in turn. The order of the entries does not count. -/
inductive EqUpToOrder : Dir F → Dir F → Prop
  | intro (d e : Dir F) (files : ∀ name, NameMap.get? name d.files = NameMap.get? name e.files)
      (dirs : ∀ name, (NameMap.get? name d.dirs).isSome = (NameMap.get? name e.dirs).isSome)
      (children : ∀ name child other, NameMap.get? name d.dirs = some child →
        NameMap.get? name e.dirs = some other → EqUpToOrder child other) : EqUpToOrder d e

-- A subdirectory is smaller than the directory that holds it.
theorem sizeOf_lt_of_get? {d child : Dir F} {name : String}
    (h : NameMap.get? name d.dirs = some child) : sizeOf child < sizeOf d := by
  have hentry := List.sizeOf_lt_of_mem (NameMap.mem_of_get? h)
  cases d with
  | mk files dirs =>
    simp only [Prod.mk.sizeOf_spec] at hentry
    simp only [mk.sizeOf_spec]
    omega

-- Below a name lies what the directory of that name has.
theorem resolve_of_get? {d child : Dir F} {name : String}
    (h : NameMap.get? name d.dirs = some child) (rest : List String) :
    d.resolve (name :: rest) = child.resolve rest := by
  rw [resolve_cons, h, Option.bind_some]

/-- Trees that lead to the same places and have the same files there are equal as
    maps. -/
theorem EqUpToOrder.of_lookups (d e : Dir F)
    (hdirs : ∀ place, (d.resolve place).isSome = (e.resolve place).isSome)
    (hfiles : ∀ place name, d.fileAt? place name = e.fileAt? place name) : EqUpToOrder d e := by
  refine .intro d e (hfiles []) (fun name => ?_) (fun name child other hchild hother => ?_)
  · rw [Bool.eq_iff_iff, ← NameMap.mem_names_iff, ← NameMap.mem_names_iff]
    have hone := hdirs ([] ++ [name])
    rwa [Bool.eq_iff_iff, ← mem_dirNamesAt_iff, ← mem_dirNamesAt_iff] at hone
  · refine of_lookups child other (fun rest => ?_) (fun rest file => ?_)
    · rw [← resolve_of_get? hchild, ← resolve_of_get? hother, hdirs]
    · have hfile := hfiles (name :: rest) file
      rwa [fileAt?_eq_bind, fileAt?_eq_bind, resolve_of_get? hchild, resolve_of_get? hother,
        ← fileAt?_eq_bind, ← fileAt?_eq_bind] at hfile
termination_by sizeOf d
decreasing_by exact sizeOf_lt_of_get? hchild

end Dir

/-- The same creations in two orders make trees that are equal as maps. -/
theorem Grown.eqUpToOrder {before now permuted : Dir String} {history reordered : List Creation}
    (h : Grown before history now) (h' : Grown before reordered permuted)
    (hperm : history.Perm reordered) : now.EqUpToOrder permuted := by
  refine Dir.EqUpToOrder.of_lookups now permuted (fun q => ?_) (fun place name => ?_)
  · rcases List.eq_nil_or_concat q with hnil | ⟨place, name, hparts⟩
    · rw [hnil]
      rfl
    · rw [hparts, List.concat_eq_append, Bool.eq_iff_iff]
      have hnow := h.isIn_iff (.dir place name)
      rw [hperm.mem_iff] at hnow
      exact hnow.trans (h'.isIn_iff (.dir place name)).symm
  · rw [h.fileAt?_eq, h'.fileAt?_eq]
    simp only [hperm.mem_iff]

namespace Call

variable {c other : Call} {made : Creation} {place : List String}

/-- A call asks for something to be created. -/
def creates : Call → Bool
  | .mkdir _ | .touch _ => true
  | .cd _ | .ls | .view _ | .read _ => false

theorem exists_creation (h : c.creates = true) (place : List String) :
    ∃ made, c.creation? place = some made := by
  cases c with
  | mkdir name | touch name => exact ⟨_, rfl⟩
  | cd name | ls | view path | read name => exact absurd h Bool.false_ne_true

/-- At one place, different calls ask for different entries. -/
theorem eq_of_creation?_eq (h : c.creation? place = some made)
    (hother : other.creation? place = some made) : c = other := by
  cases c <;> cases h <;> cases other <;> cases hother <;> rfl

end Call

namespace FileSystem

variable {fs fs' : FileSystem} {c other : Call} {made : Creation}

/-- What a call that asks for a change is told: that it is done, or why it is not. -/
def verdict (fs : FileSystem) (c : Call) : Except Error Unit :=
  (fs.answer c).map (fun _ => ())

theorem verdict_mkdir (fs : FileSystem) (name : String) : fs.verdict (.mkdir name)
    = if !isDirName name then .error (.badCommand "mkdir")
      else if fs.hasDir name then .error .directoryExists
      else if (fs.localTree.resolve fs.place).isSome then .ok () else .error .localDirMissing := by
  have hplace : fs.localAt fs.cwd = fs.localTree.resolve fs.place := rfl
  rw [verdict, answer, mkdir, hplace]
  cases isDirName name <;> cases fs.hasDir name <;> cases fs.localTree.resolve fs.place <;> rfl

theorem verdict_touch (fs : FileSystem) (name : String) : fs.verdict (.touch name)
    = if !isFileName name then .error (.badCommand "touch")
      else if fs.hasPermanentFile name then .error .permanentConflict
      else if (fs.localTree.resolve fs.place).isSome then
        if (fs.localTree.fileAt? fs.place name).isSome then .error .fileExists else .ok ()
      else .error .localDirMissing := by
  have hplace : fs.localAt fs.cwd = fs.localTree.resolve fs.place := rfl
  have hentry : (fs.localTree.fileAt? fs.place name).isSome
      = (fs.localTree.resolve fs.place).any (fun d => NameMap.contains name d.files) := by
    rw [Dir.fileAt?_eq_bind]
    cases fs.localTree.resolve fs.place <;> rfl
  rw [verdict, answer, touch, hplace, hentry]
  cases isFileName name <;> cases fs.hasPermanentFile name <;>
    cases fs.localTree.resolve fs.place with
    | none => rfl
    | some d =>
      by_cases hfree : NameMap.contains name d.files = true <;> simp [hfree, Except.map]

/-- What a creation is told rests on two facts about the local tree: whether the
    current path exists in it, and whether the entry is there. -/
theorem verdict_congr {tree : Dir String} (hmade : c.creation? fs.place = some made)
    (hplace : (tree.resolve fs.place).isSome = (fs.localTree.resolve fs.place).isSome)
    (hentry : made.IsIn tree ↔ made.IsIn fs.localTree) :
    ({ fs with localTree := tree } : FileSystem).verdict c = fs.verdict c := by
  cases c with
  | mkdir name =>
    rw [← Option.some.inj hmade] at hentry
    have hdir : ({ fs with localTree := tree } : FileSystem).hasDir name = fs.hasDir name := by
      rw [Bool.eq_iff_iff, hasDir_iff, hasDir_iff]
      exact or_congr_right hentry
    rw [verdict_mkdir, verdict_mkdir, hdir, ← hplace]
    rfl
  | touch name =>
    rw [← Option.some.inj hmade] at hentry
    have hfile : (tree.fileAt? fs.place name).isSome
        = (fs.localTree.fileAt? fs.place name).isSome := Bool.eq_iff_iff.mpr hentry
    rw [verdict_touch, verdict_touch, ← hplace, ← hfile]
    rfl
  | cd name | ls | view path | read name => exact absurd hmade (by simp [Call.creation?])

-- Nothing is created at a place that does not exist.
theorem isSome_resolve_of_answer (hc : c.creates = true) (h : fs.answer c = .ok fs') :
    (fs.localTree.resolve fs.place).isSome = true := by
  cases c with
  | mkdir name => exact (mkdir_eq_ok_iff.mp h).2.2.1
  | touch name =>
    rcases touch_eq_ok_iff.mp h with ⟨_, _, ⟨d, hd, _⟩, _⟩
    rw [hd]
    rfl
  | cd name | ls | view path | read name => exact absurd hc Bool.false_ne_true

theorem cwd_afterCall (hc : c.creates = true) (fs : FileSystem) :
    (fs.afterCall c).cwd = fs.cwd := by
  rw [afterCall]
  cases hanswer : fs.answer c with
  | error cause => rfl
  | ok fs' =>
    rcases Call.exists_creation hc fs.place with ⟨made, hmade⟩
    have hcreation := answer_creation hanswer
    simp only [hmade] at hcreation
    rw [hcreation.1]
    rfl

/-- What a creation is told is the same after another creation at the place. -/
theorem verdict_afterCall (hc : c.creates = true) (hother : other.creates = true)
    (hne : c ≠ other) (fs : FileSystem) : (fs.afterCall c).verdict other = fs.verdict other := by
  rw [afterCall]
  cases hanswer : fs.answer c with
  | error cause => rfl
  | ok fs' =>
    rcases Call.exists_creation hc fs.place with ⟨made, hmade⟩
    rcases Call.exists_creation hother fs.place with ⟨wanted, hwanted⟩
    have hcreation := answer_creation hanswer
    simp only [hmade] at hcreation
    rcases hcreation with ⟨hfs, hgrows⟩
    have hplace := isSome_resolve_of_answer hc hanswer
    have hdifferent : made ≠ wanted :=
      fun heq => hne (Call.eq_of_creation?_eq hmade (heq ▸ hwanted))
    rw [hfs] at hgrows ⊢
    -- The place is there before and after, and the entry that is made is another one.
    refine verdict_congr hwanted ?_ ?_
    · rw [hplace]
      exact hgrows.isSome_resolve hplace
    · exact (hgrows.isIn_iff wanted).trans (or_iff_left hdifferent)

end FileSystem

namespace Session

variable {s : Session} {a b : Action} {c other : Call}

/-- How an action that asks for a creation is answered, by what its call is told. -/
def answerOf (a : Action) (verdict : Except FileSystem.Error Unit) : Reply :=
  match a, verdict with
  | .call _, result => .done result
  | .line _, .ok _ => .outcome .silent
  | .line _, .error cause => .outcome (failed (.fileSystem cause))

theorem withFileSystem_fst (s : Session) (text : String) (c : Call) :
    .outcome (s.withFileSystem (s.fileSystem.answer c)).1
      = answerOf (.line text) (s.fileSystem.verdict c) := by
  rw [FileSystem.verdict]
  cases s.fileSystem.answer c <;> rfl

/-- The reply to an action that asks for a creation is the verdict on its call. -/
theorem act_fst_of_creates (provider : Option Content.Provider) (s : Session)
    (hcall : a.call? = some c) (hc : c.creates = true) :
    (s.act provider a).1 = answerOf a (s.fileSystem.verdict c) := by
  cases a with
  | call c' =>
    rw [Action.call?, Option.some.injEq] at hcall
    subst hcall
    cases c' <;> first | rfl | exact absurd hc Bool.false_ne_true
  | line text =>
    rw [← withFileSystem_fst s text]
    rcases ofWords?_eq_some_iff.mp hcall with ⟨name, ⟨hw, rfl⟩ | ⟨hw, rfl⟩ | ⟨hw, rfl⟩⟩
    · simp only [act, exec_eq_perform .mkdir hw rfl]
      rfl
    · simp only [act, exec_eq_perform .touch hw rfl]
      rfl
    · exact absurd hc Bool.false_ne_true

/-- An action is answered in the same way after another creation at the place. -/
theorem entry_act (provider : Option Content.Provider) (s : Session)
    (ha : a.call? = some c) (hc : c.creates = true) (hb : b.call? = some other)
    (hother : other.creates = true) (hne : c ≠ other) :
    (s.act provider a).2.entry provider b = s.entry provider b := by
  have hfs : (s.act provider a).2.fileSystem = s.fileSystem.afterCall c := by
    rw [act_fileSystem, ha, Option.elim_some]
  rw [entry, entry, act_fst_of_creates provider s hb hother,
    act_fst_of_creates provider _ hb hother, hfs, FileSystem.cwd_afterCall hc,
    FileSystem.verdict_afterCall hc hother hne]

/-- Different creations are answered as if each were alone. -/
theorem log_of_creates (provider : Option Content.Provider) (s : Session) {actions : List Action}
    (hcreate : ∀ a ∈ actions, ∃ c, a.call? = some c ∧ c.creates = true)
    (hdistinct : (actions.map Action.call?).Nodup) :
    s.log provider actions = actions.map (s.entry provider) := by
  induction actions generalizing s with
  | nil => rfl
  | cons a rest ih =>
    rw [List.map_cons, List.nodup_cons] at hdistinct
    rcases hcreate a List.mem_cons_self with ⟨c, hcall, hc⟩
    have hrest := fun b hb => hcreate b (List.mem_cons_of_mem a hb)
    rw [log, ih (s.act provider a).2 hrest hdistinct.2, List.map_cons]
    refine congrArg (s.entry provider a :: ·) (List.map_congr_left (fun b hb => ?_))
    rcases hrest b hb with ⟨other, hother, hcreates⟩
    have hne : c ≠ other := by
      intro heq
      exact hdistinct.1 (List.mem_map.mpr ⟨b, hb, by rw [hother, hcall, heq]⟩)
    exact entry_act provider s hcall hc hother hcreates hne

-- Creations are made where the session stands.
theorem cwd_after_of_creates (provider : Option Content.Provider) (s : Session)
    {actions : List Action} (hcreate : ∀ a ∈ actions, ∃ c, a.call? = some c ∧ c.creates = true) :
    (s.after provider actions).fileSystem.cwd = s.fileSystem.cwd := by
  induction actions generalizing s with
  | nil => rfl
  | cons a rest ih =>
    rcases hcreate a List.mem_cons_self with ⟨c, hcall, hc⟩
    rw [after_cons, ih _ (fun b hb => hcreate b (List.mem_cons_of_mem a hb)), act_fileSystem,
      hcall, Option.elim_some, FileSystem.cwd_afterCall hc]

/-- Different creations at one place commute. In every order each is answered as if
    it were alone, and the current path and the permanent tree stay as they are. The
    local trees in the end are equal as maps at every depth, and in both of them the
    names that were there at first stand in front, in their order. -/
theorem creations_commute (provider : Option Content.Provider) (s : Session)
    {actions other : List Action}
    (hcreate : ∀ a ∈ actions, ∃ c, a.call? = some c ∧ c.creates = true)
    (hdistinct : (actions.map Action.call?).Nodup) (hperm : actions.Perm other) :
    let before := s.fileSystem
    let now := (s.after provider actions).fileSystem
    let permuted := (s.after provider other).fileSystem
    s.log provider actions = actions.map (s.entry provider)
      ∧ s.log provider other = other.map (s.entry provider)
      ∧ (now.cwd = before.cwd ∧ permuted.cwd = before.cwd)
      ∧ (now.permanentTree = before.permanentTree
        ∧ permuted.permanentTree = before.permanentTree)
      ∧ now.localTree.EqUpToOrder permuted.localTree
      ∧ ∀ place, (before.localTree.dirNamesAt place <+: now.localTree.dirNamesAt place
          ∧ before.localTree.dirNamesAt place <+: permuted.localTree.dirNamesAt place)
        ∧ (before.localTree.fileNamesAt place <+: now.localTree.fileNamesAt place
          ∧ before.localTree.fileNamesAt place <+: permuted.localTree.fileNamesAt place) := by
  intro before now permuted
  have hcreate' : ∀ a ∈ other, ∃ c, a.call? = some c ∧ c.creates = true :=
    fun a ha => hcreate a (hperm.mem_iff.mpr ha)
  have hdistinct' : (other.map Action.call?).Nodup := (hperm.map Action.call?).nodup hdistinct
  have hlog := log_of_creates provider s hcreate hdistinct
  have hlog' := log_of_creates provider s hcreate' hdistinct'
  rcases after_grown provider s actions with ⟨hpermanent, _, hgrown⟩
  rcases after_grown provider s other with ⟨hpermanent', _, hgrown'⟩
  -- The journals record the same creations in two orders.
  have hjournal : (s.journal provider actions).Perm (s.journal provider other) := by
    rw [journal, journal, hlog, hlog']
    exact (hperm.map _).filterMap _
  refine ⟨hlog, hlog', ⟨cwd_after_of_creates provider s hcreate,
    cwd_after_of_creates provider s hcreate'⟩, ⟨hpermanent, hpermanent'⟩, ?_, fun place => ?_⟩
  · exact hgrown.eqUpToOrder hgrown' hjournal
  · rw [hgrown.dirNamesAt_eq, hgrown'.dirNamesAt_eq, hgrown.fileNamesAt_eq, hgrown'.fileNamesAt_eq]
    exact ⟨⟨List.prefix_append _ _, List.prefix_append _ _⟩, List.prefix_append _ _,
      List.prefix_append _ _⟩

/-- Five creations, two of which are refused, in two orders. The one name is given
    to a directory and to a file, and the new directories stand in the order in
    which they were made. -/
theorem creations_commute_reversed :
    let tree : Dir FileContent := { files := [("readme.txt", .inlineText "hello")] }
    let s : Session :=
      { fileSystem := { permanentTree := tree, localTree := { dirs := [("old", {})] } } }
    let actions : List Action := [.call (.mkdir "b"), .line "touch b", .call (.mkdir "a"),
      .call (.touch "readme.txt"), .line "mkdir old"]
    let now := (s.after none actions).fileSystem
    let permuted := (s.after none actions.reverse).fileSystem
    (∀ a ∈ actions, ∃ c, a.call? = some c ∧ c.creates = true)
      ∧ (actions.map Action.call?).Nodup ∧ actions.Perm actions.reverse
      ∧ now.localTree.EqUpToOrder permuted.localTree
      ∧ now.localTree.dirNamesAt [] = ["old", "b", "a"]
      ∧ permuted.localTree.dirNamesAt [] = ["old", "a", "b"]
      ∧ (s.log none actions).map (fun e => e.reply.accepted) = [true, true, true, false, false] := by
  intro tree s actions now permuted
  have hcreate : ∀ a ∈ actions, ∃ c, a.call? = some c ∧ c.creates = true := by
    simp only [actions, List.forall_mem_cons]
    exact ⟨⟨_, rfl, rfl⟩, ⟨.touch "b", by decide, rfl⟩, ⟨_, rfl, rfl⟩, ⟨_, rfl, rfl⟩,
      ⟨.mkdir "old", by decide, rfl⟩, List.forall_mem_nil _⟩
  have hdistinct : (actions.map Action.call?).Nodup := by decide
  have hperm : actions.Perm actions.reverse := (List.reverse_perm actions).symm
  exact ⟨hcreate, hdistinct, hperm,
    (creations_commute none s hcreate hdistinct hperm).2.2.2.2.1, by decide +kernel,
    by decide +kernel, by decide +kernel⟩

end Session

end StrataShell
