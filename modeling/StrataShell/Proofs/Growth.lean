import StrataShell.Proofs.Dir
import StrataShell.Proofs.NameMap

/-!
# Trees That Only Grow

What it means that a tree has become another one by a single new entry, and
what is true of a tree after many such entries. `Creation.Grows` describes the
new tree completely: the entry stands at the end of its directory, it is empty,
and at every other place the tree has what it had. It asks of the old tree that
the place was there and the name was free, so no step can overwrite anything.

A history of creations is a list of them. Along a history every entry stays,
and none is made twice, because a name that was given away is not free again.
That is all there is to know about the tree in the end: it has what it had at
first and what the history names, in the order of the history.

## Main definitions

* `Creation`: The making of one entry.
* `Creation.IsIn`: A tree has the entry.
* `Creation.Grows`: A tree has become another by this creation and nothing else.
* `Creation.make`: The tree with the entry made.
* `Grown`: A tree has become another by a history of creations.

## Theorems

* `grows_make_dir`, `grows_make_file`: Making a new entry in an existing
  directory is growth.
* `Grows.isIn_iff`, `Grows.fileAt?_eq`, `Grows.dirNamesAt_eq`,
  `Grows.fileNamesAt_eq`: What one creation does to a tree.
* `Grown.isIn_iff`, `Grown.fileAt?_eq`, `Grown.dirNamesAt_eq`,
  `Grown.fileNamesAt_eq`: What a history does.
* `Grown.nodup`, `Grown.not_isIn`: No entry is made twice, and none that was
  there before.
-/

namespace StrataShell

/-- The making of one entry: a directory or a file, at a place, of a name. -/
inductive Creation
  | dir (place : List String) (name : String)
  | file (place : List String) (name : String)
  deriving DecidableEq

namespace Creation

/-- A tree has the entry. -/
def IsIn (c : Creation) (d : Dir String) : Prop :=
  match c with
  | .dir place name => (d.resolve (place ++ [name])).isSome = true
  | .file place name => (d.fileAt? place name).isSome = true

/-- A tree has become another by one creation and nothing else. The directory
    was there and had no such entry; now the entry stands at its end and is
    empty, and at all other places the two trees are the same. -/
def Grows (c : Creation) (before now : Dir String) : Prop :=
  match c with
  | .dir place name => ∃ e, before.entriesAt place = some e ∧ name ∉ e.dirNames ∧
      ∀ q, now.entriesAt q =
        if q = place then some { e with dirNames := e.dirNames ++ [name] }
        else if q = place ++ [name] then some {}
        else before.entriesAt q
  | .file place name => ∃ e, before.entriesAt place = some e ∧ name ∉ NameMap.names e.files ∧
      ∀ q, now.entriesAt q =
        if q = place then some { e with files := e.files ++ [(name, "")] }
        else before.entriesAt q

/-- The tree with the entry made. -/
def make (c : Creation) (d : Dir String) : Dir String :=
  match c with
  | .dir place name => d.modifyAt (fun sub => sub.withDir name Dir.empty) place
  | .file place name => d.modifyAt (fun sub => sub.withFile name "") place

/-- The directory that a creation makes at a place, if it makes one there. -/
def dirName? (p : List String) : Creation → Option String
  | .dir place name => if place = p then some name else none
  | .file _ _ => none

/-- The file that a creation makes at a place, if it makes one there. -/
def fileName? (p : List String) : Creation → Option String
  | .dir _ _ => none
  | .file place name => if place = p then some name else none

/-- Making a directory under a free name is growth. -/
theorem grows_make_dir {place : List String} {name : String} {d sub : Dir String}
    (hplace : d.resolve place = some sub) (hfree : name ∉ NameMap.names sub.dirs) :
    (Creation.dir place name).Grows d ((Creation.dir place name).make d) := by
  refine ⟨sub.entries, ?_, hfree, fun q => ?_⟩
  · rw [Dir.entriesAt, hplace, Option.map_some]
  by_cases hq : place <+: q
  · rcases hq with ⟨r, hr⟩
    subst hr
    rw [make, Dir.entriesAt_modifyAt_append, Dir.entriesAt_append, hplace, Option.bind_some,
      Option.bind_some]
    cases r with
    | nil =>
      rw [List.append_nil, if_pos rfl]
      simp only [Dir.entriesAt, Dir.resolve_nil, Option.map_some, Dir.entries, Dir.withDir,
        NameMap.names_insert, if_neg hfree]
    | cons other later =>
      -- Below the place, only the way through the new name can differ.
      rw [if_neg (by simp), Dir.entriesAt_withDir, Dir.entriesAt_empty]
      by_cases ho : other = name
      · have hnone : Dir.entriesAt (other :: later) sub = none := by
          rw [Dir.entriesAt, Dir.resolve_cons, ho, NameMap.get?_eq_none_iff.mpr hfree]
          rfl
        simp only [ho, if_true, List.append_cancel_left_eq, List.cons.injEq, true_and]
        rw [← ho, hnone]
      · rw [if_neg ho, if_neg (by simp [ho])]
  · have hne : ¬ q = place := fun hc => hq (hc ▸ List.prefix_refl q)
    have hne' : ¬ q = place ++ [name] := fun hc => hq (hc ▸ List.prefix_append place [name])
    rw [if_neg hne, if_neg hne']
    exact Dir.entriesAt_modifyAt_of_not_prefix hq

-- The same for a file, through which no way leads.
theorem grows_make_file {place : List String} {name : String} {d sub : Dir String}
    (hplace : d.resolve place = some sub) (hfree : name ∉ NameMap.names sub.files) :
    (Creation.file place name).Grows d ((Creation.file place name).make d) := by
  refine ⟨sub.entries, ?_, hfree, fun q => ?_⟩
  · rw [Dir.entriesAt, hplace, Option.map_some]
  by_cases hq : place <+: q
  · rcases hq with ⟨r, hr⟩
    subst hr
    rw [make, Dir.entriesAt_modifyAt_append, Dir.entriesAt_append, hplace, Option.bind_some,
      Option.bind_some]
    cases r with
    | nil =>
      rw [List.append_nil, if_pos rfl]
      simp only [Dir.entriesAt, Dir.resolve_nil, Option.map_some, Dir.entries, Dir.withFile,
        NameMap.insert_of_notMem hfree]
    | cons other later =>
      -- The way down leads through the directories, which a new file leaves alone.
      rw [if_neg (by simp)]
      rfl
  · have hne : ¬ q = place := fun hc => hq (hc ▸ List.prefix_refl q)
    rw [if_neg hne]
    exact Dir.entriesAt_modifyAt_of_not_prefix hq

/-- A directory that a creation makes was not there before. -/
theorem entriesAt_of_grows_dir {place : List String} {name : String} {before now : Dir String}
    (h : (Creation.dir place name).Grows before now) :
    before.entriesAt (place ++ [name]) = none := by
  rcases h with ⟨e, he, hfree, _⟩
  rw [← Option.not_isSome_iff_eq_none, Dir.isSome_entriesAt_concat]
  rintro ⟨e', he', hmem⟩
  rw [he, Option.some.injEq] at he'
  exact hfree (he' ▸ hmem)

/-- A creation makes its file empty and leaves all other files as they are. -/
theorem Grows.fileAt?_eq {c : Creation} {before now : Dir String} (h : c.Grows before now)
    (p : List String) (n : String) :
    now.fileAt? p n = if c = .file p n then some "" else before.fileAt? p n := by
  cases c with
  | dir place name =>
    -- The directory around the new one keeps its files, and the new one has none.
    have hnone := entriesAt_of_grows_dir h
    rcases h with ⟨e, he, _, hnow⟩
    rw [if_neg (by simp), Dir.fileAt?, Dir.fileAt?, hnow p]
    by_cases hp : p = place
    · rw [if_pos hp, hp, he]
      rfl
    · by_cases hnew : p = place ++ [name]
      · rw [if_neg hp, if_pos hnew, hnew, hnone]
        rfl
      · rw [if_neg hp, if_neg hnew]
  | file place name =>
    rcases h with ⟨e, he, hfree, hnow⟩
    rw [Dir.fileAt?, Dir.fileAt?, hnow p]
    by_cases hp : p = place
    · rw [if_pos hp, hp, he, Option.bind_some, Option.bind_some, NameMap.get?_append]
      by_cases hn : name = n
      · rw [← hn, if_pos rfl, NameMap.get?_eq_none_iff.mpr hfree]
        simp only [Option.none_or, NameMap.get?, if_true]
      · rw [if_neg (by simp [hn])]
        simp only [NameMap.get?, if_neg hn, Option.or_none]
    · rw [if_neg hp, if_neg (by simp [Ne.symm hp])]

/-- A creation makes its directory and leaves all others where they are. -/
theorem Grows.isSome_resolve_iff {c : Creation} {before now : Dir String} (h : c.Grows before now)
    (p : List String) (n : String) :
    (now.resolve (p ++ [n])).isSome = true
      ↔ (before.resolve (p ++ [n])).isSome = true ∨ c = .dir p n := by
  rw [← Dir.isSome_entriesAt, ← Dir.isSome_entriesAt]
  cases c with
  | dir place name =>
    rcases h with ⟨e, he, _, hnow⟩
    rw [hnow]
    by_cases hp : p ++ [n] = place
    · -- The place of the creation was there before it.
      rw [if_pos hp, hp, he]
      simp
    · by_cases hnew : p ++ [n] = place ++ [name]
      · have hparts := List.append_inj' hnew rfl
        rw [if_neg hp, if_pos hnew]
        simp only [Option.isSome_some, true_iff]
        exact Or.inr (by rw [hparts.1, List.singleton_inj.mp hparts.2])
      · have hne : ¬ Creation.dir place name = .dir p n := by
          intro hc
          injection hc with hplace hname
          exact hnew (by rw [hplace, hname])
        rw [if_neg hp, if_neg hnew, or_iff_left hne]
  | file place name =>
    rcases h with ⟨e, he, _, hnow⟩
    rw [hnow, or_iff_left (by simp)]
    by_cases hp : p ++ [n] = place
    · rw [if_pos hp, hp, he]
      rfl
    · rw [if_neg hp]

-- The same of the names at a place.
theorem Grows.mem_dirNamesAt_iff {c : Creation} {before now : Dir String} (h : c.Grows before now)
    {p : List String} {n : String} :
    n ∈ now.dirNamesAt p ↔ n ∈ before.dirNamesAt p ∨ c = .dir p n := by
  rw [Dir.mem_dirNamesAt_iff, Dir.mem_dirNamesAt_iff]
  exact h.isSome_resolve_iff p n

/-- What led to a directory still does. -/
theorem Grows.isSome_resolve {c : Creation} {before now : Dir String} (h : c.Grows before now)
    {q : List String} (hq : (before.resolve q).isSome = true) :
    (now.resolve q).isSome = true := by
  rcases List.eq_nil_or_concat q with hnil | ⟨p, n, hparts⟩
  · rw [hnil]
    rfl
  · rw [hparts, List.concat_eq_append] at hq ⊢
    exact (h.isSome_resolve_iff p n).mpr (Or.inl hq)

/-- After a creation the tree has the entries it had and the one made. -/
theorem Grows.isIn_iff {c : Creation} {before now : Dir String} (h : c.Grows before now)
    (other : Creation) : other.IsIn now ↔ other.IsIn before ∨ c = other := by
  cases other with
  | dir p n => exact h.isSome_resolve_iff p n
  | file p n =>
    rw [IsIn, IsIn, h.fileAt?_eq]
    by_cases hc : c = .file p n
    · rw [if_pos hc]
      simp [hc]
    · rw [if_neg hc, or_iff_left hc]

/-- What a creation makes was not there before. -/
theorem Grows.not_isIn {c : Creation} {before now : Dir String} (h : c.Grows before now) :
    ¬ c.IsIn before := by
  cases c with
  | dir place name =>
    rw [IsIn, ← Dir.isSome_entriesAt, entriesAt_of_grows_dir h]
    exact Bool.false_ne_true
  | file place name =>
    rcases h with ⟨e, he, hfree, _⟩
    rw [IsIn, Dir.fileAt?, he, Option.bind_some, NameMap.get?_eq_none_iff.mpr hfree]
    exact Bool.false_ne_true

-- The order of the names: what is new stands behind what was there.
theorem Grows.dirNamesAt_eq {c : Creation} {before now : Dir String} (h : c.Grows before now)
    (p : List String) : now.dirNamesAt p = before.dirNamesAt p ++ (c.dirName? p).toList := by
  cases c with
  | dir place name =>
    have hnone := entriesAt_of_grows_dir h
    rcases h with ⟨e, he, _, hnow⟩
    rw [Dir.dirNamesAt, Dir.dirNamesAt, hnow p, dirName?]
    by_cases hp : p = place
    · rw [if_pos hp, if_pos hp.symm, hp, he]
      rfl
    · rw [if_neg hp, if_neg (Ne.symm hp), Option.toList_none, List.append_nil]
      by_cases hnew : p = place ++ [name]
      · rw [if_pos hnew, hnew, hnone]
        rfl
      · rw [if_neg hnew]
  | file place name =>
    rcases h with ⟨e, he, _, hnow⟩
    rw [Dir.dirNamesAt, Dir.dirNamesAt, hnow p, dirName?, Option.toList_none, List.append_nil]
    by_cases hp : p = place
    · rw [if_pos hp, hp, he]
      rfl
    · rw [if_neg hp]

theorem Grows.fileNamesAt_eq {c : Creation} {before now : Dir String} (h : c.Grows before now)
    (p : List String) : now.fileNamesAt p = before.fileNamesAt p ++ (c.fileName? p).toList := by
  cases c with
  | dir place name =>
    have hnone := entriesAt_of_grows_dir h
    rcases h with ⟨e, he, _, hnow⟩
    rw [Dir.fileNamesAt, Dir.fileNamesAt, hnow p, fileName?, Option.toList_none, List.append_nil]
    by_cases hp : p = place
    · rw [if_pos hp, hp, he]
      rfl
    · rw [if_neg hp]
      by_cases hnew : p = place ++ [name]
      · rw [if_pos hnew, hnew, hnone]
        rfl
      · rw [if_neg hnew]
  | file place name =>
    rcases h with ⟨e, he, _, hnow⟩
    rw [Dir.fileNamesAt, Dir.fileNamesAt, hnow p, fileName?]
    by_cases hp : p = place
    · rw [if_pos hp, if_pos hp.symm, hp, he]
      simp only [NameMap.names, Option.getD_some, List.map_append, List.map_cons, List.map_nil,
        Option.toList_some]
    · rw [if_neg hp, if_neg (Ne.symm hp), Option.toList_none, List.append_nil]

end Creation

/-- A tree has become another by a history of creations, first one first. -/
inductive Grown : Dir String → List Creation → Dir String → Prop
  | refl (d : Dir String) : Grown d [] d
  | step (before next now : Dir String) (c : Creation) (rest : List Creation)
      (first : c.Grows before next) (later : Grown next rest now) : Grown before (c :: rest) now

namespace Grown

variable {before now : Dir String} {history : List Creation}

/-- In the end the tree has the entries it had and those the history made. -/
theorem isIn_iff (h : Grown before history now) (c : Creation) :
    c.IsIn now ↔ c.IsIn before ∨ c ∈ history := by
  induction h with
  | refl d => simp
  | step before next now first rest hfirst _ ih =>
    rw [ih, hfirst.isIn_iff, List.mem_cons, or_assoc, eq_comm]

/-- What led to a directory still does in the end. -/
theorem isSome_resolve (h : Grown before history now) {q : List String}
    (hq : (before.resolve q).isSome = true) : (now.resolve q).isSome = true := by
  induction h with
  | refl d => exact hq
  | step before next now first rest hfirst _ ih => exact ih (hfirst.isSome_resolve hq)

/-- No creation of a history makes what was there before. -/
theorem not_isIn (h : Grown before history now) {c : Creation} (hc : c ∈ history) :
    ¬ c.IsIn before := by
  induction h with
  | refl d => exact absurd hc List.not_mem_nil
  | step before next now first rest hfirst _ ih =>
    -- What was there before is there after the first creation as well.
    rcases List.mem_cons.mp hc with hhead | htail
    · rw [hhead]
      exact hfirst.not_isIn
    · exact fun hin => ih htail ((hfirst.isIn_iff c).mpr (Or.inl hin))

/-- No entry is made twice: what was made is there from then on. -/
theorem nodup (h : Grown before history now) : history.Nodup := by
  induction h with
  | refl d => exact List.nodup_nil
  | step before next now first rest hfirst hlater ih =>
    refine List.nodup_cons.mpr ⟨fun hmem => ?_, ih⟩
    exact hlater.not_isIn hmem ((hfirst.isIn_iff first).mpr (Or.inr rfl))

/-- In the end the files of a history are empty and the others as they were. -/
theorem fileAt?_eq (h : Grown before history now) (p : List String) (n : String) :
    now.fileAt? p n = if .file p n ∈ history then some "" else before.fileAt? p n := by
  induction h with
  | refl d => rw [if_neg List.not_mem_nil]
  | step before next now first rest hfirst hlater ih =>
    rw [ih, hfirst.fileAt?_eq]
    by_cases hc : first = .file p n
    · -- The file is empty from here on, whether or not the rest names it.
      simp [hc]
    · have hiff : Creation.file p n ∈ first :: rest ↔ Creation.file p n ∈ rest := by
        simp [Ne.symm hc]
      rw [if_neg hc]
      simp only [hiff]

/-- In the end the directories of a history follow those that were there. -/
theorem dirNamesAt_eq (h : Grown before history now) (p : List String) :
    now.dirNamesAt p = before.dirNamesAt p ++ history.filterMap (Creation.dirName? p) := by
  induction h with
  | refl d => rw [List.filterMap_nil, List.append_nil]
  | step before next now first rest hfirst _ ih =>
    rw [ih, hfirst.dirNamesAt_eq, List.append_assoc, List.filterMap_cons]
    cases first.dirName? p <;> rfl

theorem fileNamesAt_eq (h : Grown before history now) (p : List String) :
    now.fileNamesAt p = before.fileNamesAt p ++ history.filterMap (Creation.fileName? p) := by
  induction h with
  | refl d => rw [List.filterMap_nil, List.append_nil]
  | step before next now first rest hfirst _ ih =>
    rw [ih, hfirst.fileNamesAt_eq, List.append_assoc, List.filterMap_cons]
    cases first.fileName? p <;> rfl

end Grown

end StrataShell
