import StrataShell.Proofs.FileSystem
import StrataShell.Proofs.View

/-!
# The View as a Look Into One Tree

A user who walks through two layers should be able to think of one tree. This
module builds that tree and shows that the view is what stands in it. `overlay`
lays the local tree over the permanent one all the way down: where both have a
directory, the two are laid over each other in turn, and where only one has it,
its whole subtree is taken. No path is involved in this.

The view does the two things in the other order. It follows the path in either
tree by itself, which may fail in one and not in the other, and lays only the
two directories at the end over each other. That this makes no difference is
`resolve_overlay`: following a path commutes with laying over.

What is left is then a fact about two maps. Entering the entries of one after
those of the other gives the first map with its values replaced where the other
has the name, followed by what only the other has. Both sides are free of
repetitions, so it is enough to compare the order of their names and what they
have under each name, which is `eq_of_names_of_get?`.

## Main definitions

* `NameMap.merge`: Two maps in one, with a way to join values of one name.
* `Dir.mapFiles`: A tree with its contents changed alike.
* `Dir.overlay`: A local tree laid over a permanent one at every depth.

## Theorems

* `ofList_map_append`: Two maps entered one after the other are merged.
* `resolve_overlay`: Following a path commutes with laying over.
* `view_eq_overlay`: The view at a path is what the overlay has there.
-/

namespace StrataShell

namespace NameMap

variable {α β γ : Type}

/-- Two maps in one: the names of the first in their order, and behind them
    those that only the second has, in theirs. -/
def merge (first : α → γ) (second : β → γ) (both : α → β → γ) (m : NameMap α) (n : NameMap β) :
    NameMap γ :=
  m.map (fun entry => (entry.1, (get? entry.1 n).elim (first entry.2) (both entry.2)))
    ++ (n.filter (fun entry => !contains entry.1 m)).map (fun entry => (entry.1, second entry.2))

/-- Under a name a merged map has what either map has there, or the two values
    joined. -/
theorem get?_merge (first : α → γ) (second : β → γ) (both : α → β → γ) (name : String)
    (m : NameMap α) (n : NameMap β) :
    get? name (merge first second both m n) = match get? name m, get? name n with
      | some a, some b => some (both a b)
      | some a, none => some (first a)
      | none, some b => some (second b)
      | none, none => none := by
  have hsecond : get? name (n.filter (fun entry => !contains entry.1 m))
      = if contains name m then none else get? name n := by
    rw [get?_filter (fun key => !contains key m)]
    cases contains name m <;> rfl
  rw [merge, get?_append, get?_mapEntries (fun key a => (get? key n).elim (first a) (both a)),
    get?_map second, hsecond, contains]
  cases get? name m <;> cases get? name n <;> rfl

theorem names_merge (first : α → γ) (second : β → γ) (both : α → β → γ) (m : NameMap α)
    (n : NameMap β) : names (merge first second both m n)
      = names m ++ (names n).filter (fun name => !contains name m) := by
  simp only [merge, names, List.map_append, List.map_map, List.filter_map]
  rfl

/-- Two maps entered one after the other are merged: the second has the last
    word on the values. -/
theorem ofList_map_append (f : α → γ) (g : β → γ) {m : NameMap α} {n : NameMap β}
    (hm : Distinct m) (hn : Distinct n) :
    ofList (m.map (fun entry => (entry.1, f entry.2)) ++ n.map (fun entry => (entry.1, g entry.2)))
      = merge f g (fun _ b => g b) m n := by
  have hf := hm.map f
  have hg := hn.map g
  refine eq_of_names_of_get? (distinct_ofList _) ?_ (fun name => ?_)
  · have hcontains : ∀ name,
        contains name (ofList (m.map (fun entry => (entry.1, f entry.2)))) = contains name m := by
      intro name
      rw [Bool.eq_iff_iff, contains, contains, ← mem_names_iff, ← mem_names_iff, names_ofList hf,
        names_map]
    rw [ofList, insertAll_append, ← ofList, names_insertAll hg, names_ofList hf, names_map,
      names_map, names_merge]
    simp only [hcontains]
  · -- The lookup runs from the end, and so meets the second map first.
    rw [ofList, get?_insertAll, List.reverse_append, get?_append, get?_reverse hf,
      get?_reverse hg, get?_map, get?_map, get?_merge]
    cases get? name m <;> cases get? name n <;> rfl

theorem merge_nil (first : α → γ) (second : β → γ) (both : α → β → γ) (m : NameMap α) :
    merge first second both m [] = m.map (fun entry => (entry.1, first entry.2)) := by
  simp only [merge, get?, Option.elim_none, List.filter_nil, List.map_nil, List.append_nil]

theorem nil_merge (first : α → γ) (second : β → γ) (both : α → β → γ) (n : NameMap β) :
    merge first second both [] n = n.map (fun entry => (entry.1, second entry.2)) := by
  have hall : n.filter (fun entry => !contains entry.1 ([] : NameMap α)) = n :=
    List.filter_eq_self.mpr (fun _ _ => rfl)
  rw [merge, hall, List.map_nil, List.nil_append]

end NameMap

namespace Dir

variable {F G : Type}

mutual

/-- A tree with its contents changed alike. -/
def mapFiles (f : F → G) : Dir F → Dir G
  | ⟨files, dirs⟩ =>
    { files := files.map (fun entry => (entry.1, f entry.2)), dirs := mapChildren f dirs }

/-- Named trees with their contents changed alike. -/
def mapChildren (f : F → G) : List (String × Dir F) → List (String × Dir G)
  | [] => []
  | (name, child) :: rest => (name, mapFiles f child) :: mapChildren f rest

end

mutual

/-- A local tree laid over a permanent one. A directory of both is laid over,
    one of a single tree is taken with all that is below it, and a file of both
    has its local content. The permanent names come first. -/
def overlay : Dir FileContent → Dir String → Dir FileRef
  | ⟨files, dirs⟩, l =>
    { files := NameMap.merge .permanentFile .localFile (fun _ text => .localFile text) files l.files
      dirs := overlayChildren dirs l.dirs
        ++ (l.dirs.filter (fun entry => !NameMap.contains entry.1 dirs)).map
          (fun entry => (entry.1, mapFiles .localFile entry.2)) }

/-- The directories of a permanent tree, each laid over with its local
    namesake. -/
def overlayChildren : List (String × Dir FileContent) → List (String × Dir String) →
    List (String × Dir FileRef)
  | [], _ => []
  | (name, child) :: rest, others =>
    (name, match NameMap.get? name others with
      | none => mapFiles .permanentFile child
      | some other => overlay child other) :: overlayChildren rest others

end

theorem mapChildren_eq (f : F → G) (dirs : List (String × Dir F)) :
    mapChildren f dirs = dirs.map (fun entry => (entry.1, mapFiles f entry.2)) := by
  induction dirs with
  | nil => rw [mapChildren, List.map_nil]
  | cons entry rest ih => rw [mapChildren, ih, List.map_cons]

theorem overlayChildren_eq (dirs : List (String × Dir FileContent))
    (others : List (String × Dir String)) :
    overlayChildren dirs others = dirs.map (fun entry => (entry.1,
      (NameMap.get? entry.1 others).elim (mapFiles .permanentFile entry.2) (overlay entry.2))) := by
  induction dirs with
  | nil => rw [overlayChildren, List.map_nil]
  | cons entry rest ih =>
    rw [overlayChildren, ih, List.map_cons]
    cases NameMap.get? entry.1 others <;> rfl

theorem dirs_mapFiles (f : F → G) (d : Dir F) :
    (d.mapFiles f).dirs = d.dirs.map (fun entry => (entry.1, mapFiles f entry.2)) := by
  cases d with
  | mk files dirs => simp only [mapFiles, mapChildren_eq]

theorem files_mapFiles (f : F → G) (d : Dir F) :
    (d.mapFiles f).files = d.files.map (fun entry => (entry.1, f entry.2)) := by
  cases d with
  | mk files dirs => simp only [mapFiles]

/-- The directories of an overlay are merged by laying them over each other. -/
theorem dirs_overlay (p : Dir FileContent) (l : Dir String) : (overlay p l).dirs
    = NameMap.merge (mapFiles .permanentFile) (mapFiles .localFile) overlay p.dirs l.dirs := by
  cases p with
  | mk files dirs => simp only [overlay, overlayChildren_eq, NameMap.merge]

theorem files_overlay (p : Dir FileContent) (l : Dir String) : (overlay p l).files
    = NameMap.merge .permanentFile .localFile (fun _ text => .localFile text) p.files l.files := by
  cases p with
  | mk files dirs => simp only [overlay]

-- Followed by a path, a tree gives what it has there, with the contents changed.
theorem resolve_mapFiles (f : F → G) (path : List String) (d : Dir F) :
    resolve path (d.mapFiles f) = (resolve path d).map (mapFiles f) := by
  induction path generalizing d with
  | nil => rfl
  | cons name rest ih =>
    rw [resolve_cons, resolve_cons, dirs_mapFiles, NameMap.get?_map]
    cases NameMap.get? name d.dirs with
    | none => rfl
    | some child => exact ih child

theorem overlay_empty (p : Dir FileContent) : overlay p empty = p.mapFiles .permanentFile := by
  refine eq_of_files_of_dirs ?_ ?_
  · rw [files_overlay, files_mapFiles]
    exact NameMap.merge_nil _ _ _ p.files
  · rw [dirs_overlay, dirs_mapFiles]
    exact NameMap.merge_nil _ _ _ p.dirs

theorem empty_overlay (l : Dir String) : overlay empty l = l.mapFiles .localFile := by
  refine eq_of_files_of_dirs ?_ ?_
  · rw [files_overlay, files_mapFiles]
    exact NameMap.nil_merge _ _ _ l.files
  · rw [dirs_overlay, dirs_mapFiles]
    exact NameMap.nil_merge _ _ _ l.dirs

/-- What is laid over each other at one place, where either side may be
    missing. -/
def overlay? : Option (Dir FileContent) → Option (Dir String) → Option (Dir FileRef)
  | none, none => none
  | p, l => some (overlay (p.getD empty) (l.getD empty))

theorem overlay?_cases (p : Option (Dir FileContent)) (l : Option (Dir String)) :
    (overlay? p l = none ∧ p = none ∧ l = none)
      ∨ overlay? p l = some (overlay (p.getD empty) (l.getD empty)) := by
  cases p with
  | none =>
    cases l with
    | none => exact Or.inl ⟨rfl, rfl, rfl⟩
    | some l => exact Or.inr rfl
  | some p => exact Or.inr (by cases l <;> rfl)

theorem overlay?_none_left (l : Option (Dir String)) :
    overlay? none l = l.map (mapFiles .localFile) := by
  cases l with
  | none => rfl
  | some l => exact congrArg some (empty_overlay l)

theorem overlay?_none_right (p : Option (Dir FileContent)) :
    overlay? p none = p.map (mapFiles .permanentFile) := by
  cases p with
  | none => rfl
  | some p => exact congrArg some (overlay_empty p)

/-- Following a path commutes with laying over: the overlay has at a path what
    the two trees have there, laid over each other. -/
theorem resolve_overlay (path : List String) (p : Dir FileContent) (l : Dir String) :
    resolve path (overlay p l) = overlay? (resolve path p) (resolve path l) := by
  induction path generalizing p l with
  | nil => rfl
  | cons name rest ih =>
    rw [resolve_cons, resolve_cons, resolve_cons, dirs_overlay, NameMap.get?_merge]
    cases NameMap.get? name p.dirs with
    | none =>
      cases NameMap.get? name l.dirs with
      | none => rfl
      | some other =>
        -- From here on there is only the local tree.
        simp only [Option.bind_some, Option.bind_none]
        rw [resolve_mapFiles, overlay?_none_left]
    | some child =>
      cases NameMap.get? name l.dirs with
      | none =>
        simp only [Option.bind_some, Option.bind_none]
        rw [resolve_mapFiles, overlay?_none_right]
      | some other => exact ih child other

-- The directory at a place, or the empty one, tells all there is to know there.
theorem dirNamesAt_eq (place : List String) (d : Dir F) :
    d.dirNamesAt place = NameMap.names ((d.resolve place).getD empty).dirs := by
  rw [dirNamesAt, entriesAt]
  cases d.resolve place <;> rfl

theorem fileAt?_eq_getD (place : List String) (name : String) (d : Dir F) :
    d.fileAt? place name = NameMap.get? name ((d.resolve place).getD empty).files := by
  rw [fileAt?, entriesAt]
  cases d.resolve place <;> rfl

theorem fileNamesAt_eq (place : List String) (d : Dir F) :
    d.fileNamesAt place = NameMap.names ((d.resolve place).getD empty).files := by
  rw [fileNamesAt, entriesAt]
  cases d.resolve place <;> rfl

-- And it repeats no name if the tree repeats none.
theorem Distinct.getD_resolve {d : Dir F} (h : d.Distinct) (place : List String) :
    NameMap.Distinct ((d.resolve place).getD empty).files
      ∧ NameMap.Distinct ((d.resolve place).getD empty).dirs := by
  cases hd : d.resolve place with
  | none => exact ⟨List.nodup_nil, List.nodup_nil⟩
  | some sub =>
    cases h.resolve hd with
    | intro _ files dirs _ => exact ⟨files, dirs⟩

end Dir

namespace View

-- A missing directory shows as little as an empty one.
theorem ofLayers_getD (p : Option (Dir FileContent)) (l : Option (Dir String)) :
    ofLayers p l = ofLayers (some (p.getD Dir.empty)) (some (l.getD Dir.empty)) := by
  cases p <;> cases l <;> rfl

variable {p : Dir FileContent} {l : Dir String}

-- The entries of two directories, one of each layer, are shown merged.
theorem dirs_ofLayers (hp : NameMap.Distinct p.dirs) (hl : NameMap.Distinct l.dirs) :
    (ofLayers (some p) (some l)).dirs
      = NameMap.merge (fun _ => .permanentLayer) (fun _ => .localLayer) (fun _ _ => .localLayer)
        p.dirs l.dirs :=
  NameMap.ofList_map_append (fun _ => Layer.permanentLayer) (fun _ => Layer.localLayer) hp hl

theorem files_ofLayers (hp : NameMap.Distinct p.files) (hl : NameMap.Distinct l.files) :
    (ofLayers (some p) (some l)).files
      = NameMap.merge .permanentFile .localFile (fun _ text => .localFile text) p.files l.files :=
  NameMap.ofList_map_append FileRef.permanentFile FileRef.localFile hp hl

/-- Two directories are shown as the one that they make when they are laid over
    each other. -/
theorem ofLayers_eq_overlay (hpdirs : NameMap.Distinct p.dirs) (hldirs : NameMap.Distinct l.dirs)
    (hpfiles : NameMap.Distinct p.files) (hlfiles : NameMap.Distinct l.files) :
    NameMap.names (ofLayers (some p) (some l)).dirs = NameMap.names (Dir.overlay p l).dirs
      ∧ (ofLayers (some p) (some l)).files = (Dir.overlay p l).files := by
  rw [dirs_ofLayers hpdirs hldirs, files_ofLayers hpfiles hlfiles, Dir.dirs_overlay,
    Dir.files_overlay, NameMap.names_merge, NameMap.names_merge]
  exact ⟨rfl, rfl⟩

-- A directory of both layers is marked with the local one.
theorem get?_dirs_ofLayers (hp : NameMap.Distinct p.dirs) (hl : NameMap.Distinct l.dirs)
    (name : String) : NameMap.get? name (ofLayers (some p) (some l)).dirs
      = if name ∈ NameMap.names l.dirs then some .localLayer
        else if name ∈ NameMap.names p.dirs then some .permanentLayer else none := by
  rw [dirs_ofLayers hp hl, NameMap.get?_merge]
  simp only [NameMap.mem_names_iff]
  cases NameMap.get? name l.dirs <;> cases NameMap.get? name p.dirs <;> rfl

-- A file of both layers is shown with its local content.
theorem get?_files_eq_or (hp : NameMap.Distinct p.files) (hl : NameMap.Distinct l.files)
    (name : String) : NameMap.get? name (ofLayers (some p) (some l)).files
      = ((NameMap.get? name l.files).map .localFile).or
        ((NameMap.get? name p.files).map .permanentFile) := by
  rw [files_ofLayers hp hl, NameMap.get?_merge]
  cases NameMap.get? name l.files <;> cases NameMap.get? name p.files <;> rfl

end View

namespace FileSystem

-- What is seen, with an empty directory in place of a missing one.
theorem here_getD (fs : FileSystem) : fs.here
    = View.ofLayers (some ((fs.permanentTree.resolve fs.place).getD Dir.empty))
      (some ((fs.localTree.resolve fs.place).getD Dir.empty)) :=
  View.ofLayers_getD _ _

/-- The view at a path is what the overlay of the two trees has there. It lists
    the same directories and the same files in the same order, each name once,
    and nothing where the overlay has no directory. A directory is marked with
    the local layer exactly if the local tree has it at the path, and a file has
    its local content exactly if the local tree has it there. -/
theorem view_eq_overlay (fs : FileSystem) (hp : fs.permanentTree.Distinct)
    (hl : fs.localTree.Distinct) (path : String) :
    let place := Path.segments path
    let seen := fs.view path
    (match (fs.permanentTree.overlay fs.localTree).resolve place with
      | none => seen.dirs = [] ∧ seen.files = []
      | some d => NameMap.names seen.dirs = NameMap.names d.dirs ∧ seen.files = d.files)
      ∧ (NameMap.names seen.dirs).Nodup
      ∧ (NameMap.names seen.files).Nodup
      ∧ (∀ name, NameMap.get? name seen.dirs
          = if name ∈ fs.localTree.dirNamesAt place then some .localLayer
            else if name ∈ fs.permanentTree.dirNamesAt place then some .permanentLayer
            else none)
      ∧ (∀ name, NameMap.get? name seen.files
          = ((fs.localTree.fileAt? place name).map .localFile).or
            ((fs.permanentTree.fileAt? place name).map .permanentFile)) := by
  intro place seen
  rcases hp.getD_resolve place with ⟨hpfiles, hpdirs⟩
  rcases hl.getD_resolve place with ⟨hlfiles, hldirs⟩
  have hseen : seen = View.ofLayers (some ((fs.permanentTree.resolve place).getD Dir.empty))
      (some ((fs.localTree.resolve place).getD Dir.empty)) := View.ofLayers_getD _ _
  refine ⟨?_, View.distinct_dirs _ _, View.distinct_files _ _, fun name => ?_, fun name => ?_⟩
  · rw [Dir.resolve_overlay]
    rcases Dir.overlay?_cases (fs.permanentTree.resolve place) (fs.localTree.resolve place) with
      ⟨hnode, hpnone, hlnone⟩ | hnode
    · -- A path that leads nowhere in either tree leads nowhere in the overlay.
      rw [hnode, hseen, hpnone, hlnone]
      exact ⟨rfl, rfl⟩
    · rw [hnode, hseen]
      exact View.ofLayers_eq_overlay hpdirs hldirs hpfiles hlfiles
  · rw [hseen, View.get?_dirs_ofLayers hpdirs hldirs]
    simp only [Dir.dirNamesAt_eq]
  · rw [hseen, View.get?_files_eq_or hpfiles hlfiles, Dir.fileAt?_eq_getD, Dir.fileAt?_eq_getD]

/-- Two trees that share a directory and, in it, a file. -/
theorem view_eq_overlay_shared :
    let permanentTree : Dir FileContent := { dirs := [("docs",
      { files := [("readme", .inlineText "ours")], dirs := [("old", {})] })] }
    let localTree : Dir String := { dirs := [("docs",
      { files := [("todo", ""), ("readme", "mine")], dirs := [("new", {})] })] }
    let fs : FileSystem := { permanentTree := permanentTree, localTree := localTree }
    permanentTree.Distinct ∧ localTree.Distinct
      ∧ NameMap.names (fs.view "docs//").dirs = ["old", "new"]
      ∧ (fs.view "docs//").files = [("readme", .localFile "mine"), ("todo", .localFile "")] := by
  intro permanentTree localTree fs
  have hp : permanentTree.Distinct := by
    refine Dir.Distinct.of_entries (by decide) (by decide) (List.forall_mem_singleton.mpr ?_)
    refine Dir.Distinct.of_entries (by decide) (by decide) (List.forall_mem_singleton.mpr ?_)
    exact Dir.Distinct.of_entries (by decide) (by decide) (List.forall_mem_nil _)
  have hl : localTree.Distinct := by
    refine Dir.Distinct.of_entries (by decide) (by decide) (List.forall_mem_singleton.mpr ?_)
    refine Dir.Distinct.of_entries (by decide) (by decide) (List.forall_mem_singleton.mpr ?_)
    exact Dir.Distinct.of_entries (by decide) (by decide) (List.forall_mem_nil _)
  have h := (view_eq_overlay fs hp hl "docs//").1
  exact ⟨hp, hl, h⟩

end FileSystem

end StrataShell
