import StrataShell.Proofs.NameMap
import StrataShell.View

/-!
# What a View Shows Under a Name

A view is made by entering the permanent entries and then the local ones, so
what it shows under a name is the local entry if there is one and the permanent
one otherwise. The lookup runs backwards through the list of what was entered,
which makes no difference to a directory that has each name once.

## Theorems

* `get?_files_ofLayers`: A file is looked up in the local layer first.
* `get?_fileEntries`: A layer shows the files of its directory.
* `get?_files_of_permanent`: A permanent file without a local namesake is shown.
* `mem_dirs_ofLayers`, `mem_files_ofLayers`: A view shows what either layer has.
* `dirs_ofLayers_withDir`, `files_ofLayers_withFile`: A new local entry is shown
  behind the others.
* `listing_congr`: A listing is settled by the names of a view.
-/

namespace StrataShell

namespace View

variable {F : Type}

/-- A file is looked up among the local entries first, from the last one. -/
theorem get?_files_ofLayers (name : String) (p : Option (Dir FileContent))
    (l : Option (Dir String)) :
    NameMap.get? name (ofLayers p l).files
      = (NameMap.get? name (fileEntries .localFile l).reverse).or
        (NameMap.get? name (fileEntries .permanentFile p).reverse) := by
  have hfiles : (ofLayers p l).files
      = NameMap.insertAll [] (fileEntries .permanentFile p ++ fileEntries .localFile l) := rfl
  rw [hfiles, NameMap.get?_insertAll, List.reverse_append, NameMap.get?_append, NameMap.get?,
    Option.or_none]

/-- A layer shows the files of its directory. -/
theorem get?_fileEntries (ref : F → FileRef) (name : String) (d : Option (Dir F)) :
    NameMap.get? name (fileEntries ref d)
      = (d.bind (fun sub => NameMap.get? name sub.files)).map ref := by
  cases d with
  | none => rfl
  | some sub => exact NameMap.get?_map ref name sub.files

-- The names of a layer are those of its directory, so they repeat if those do.
theorem distinct_fileEntries (ref : F → FileRef) {d : Dir F} (h : NameMap.Distinct d.files) :
    NameMap.Distinct (fileEntries ref (some d)) :=
  NameMap.Distinct.map ref h

theorem mem_dirEntries {layer : Layer} {name : String} {d : Option (Dir F)} :
    name ∈ NameMap.names (dirEntries layer d)
      ↔ d.any (fun sub => NameMap.contains name sub.dirs) = true := by
  cases d with
  | none => simp [dirEntries, NameMap.names]
  | some sub =>
    have hnames : NameMap.names (dirEntries layer (some sub)) = NameMap.names sub.dirs :=
      NameMap.names_map (fun _ => layer) sub.dirs
    rw [hnames, NameMap.mem_names_iff, Option.any_some, NameMap.contains]

theorem mem_fileEntries {ref : F → FileRef} {name : String} {d : Option (Dir F)} :
    name ∈ NameMap.names (fileEntries ref d)
      ↔ d.any (fun sub => NameMap.contains name sub.files) = true := by
  rw [NameMap.mem_names_iff, get?_fileEntries, Option.isSome_map]
  cases d <;> rfl

/-- A directory is shown if either layer has it. -/
theorem mem_dirs_ofLayers {name : String} {p : Option (Dir FileContent)}
    {l : Option (Dir String)} :
    name ∈ NameMap.names (ofLayers p l).dirs
      ↔ p.any (fun sub => NameMap.contains name sub.dirs) = true
        ∨ l.any (fun sub => NameMap.contains name sub.dirs) = true := by
  rw [ofLayers, NameMap.mem_names_ofList, NameMap.names, List.map_append, List.mem_append]
  exact or_congr mem_dirEntries mem_dirEntries

/-- A file is shown if either layer has it. -/
theorem mem_files_ofLayers {name : String} {p : Option (Dir FileContent)}
    {l : Option (Dir String)} :
    name ∈ NameMap.names (ofLayers p l).files
      ↔ p.any (fun sub => NameMap.contains name sub.files) = true
        ∨ l.any (fun sub => NameMap.contains name sub.files) = true := by
  rw [ofLayers, NameMap.mem_names_ofList, NameMap.names, List.map_append, List.mem_append]
  exact or_congr mem_fileEntries mem_fileEntries

/-- A new local directory is shown behind the others. -/
theorem dirs_ofLayers_withDir {name : String} {p : Option (Dir FileContent)} {d : Dir String}
    (h : name ∉ NameMap.names (ofLayers p (some d)).dirs) (child : Dir String) :
    (ofLayers p (some (d.withDir name child))).dirs
      = (ofLayers p (some d)).dirs ++ [(name, .localLayer)] := by
  have hlocal : name ∉ NameMap.names d.dirs := by
    intro hmem
    refine h (mem_dirs_ofLayers.mpr (Or.inr ?_))
    exact NameMap.mem_names_iff.mp hmem
  have hentries : dirEntries .localLayer (some (d.withDir name child))
      = dirEntries .localLayer (some d) ++ [(name, .localLayer)] := by
    simp only [dirEntries, Dir.withDir, NameMap.insert_of_notMem hlocal, List.map_append,
      List.map_cons, List.map_nil]
  rw [ofLayers, NameMap.mem_names_ofList] at h
  simp only [ofLayers, hentries]
  rw [← List.append_assoc, NameMap.ofList_concat h]

/-- A new local file is shown behind the others. -/
theorem files_ofLayers_withFile {name : String} {p : Option (Dir FileContent)} {d : Dir String}
    (h : name ∉ NameMap.names (ofLayers p (some d)).files) (text : String) :
    (ofLayers p (some (d.withFile name text))).files
      = (ofLayers p (some d)).files ++ [(name, .localFile text)] := by
  have hlocal : name ∉ NameMap.names d.files := by
    intro hmem
    refine h (mem_files_ofLayers.mpr (Or.inr ?_))
    exact NameMap.mem_names_iff.mp hmem
  have hentries : fileEntries .localFile (some (d.withFile name text))
      = fileEntries .localFile (some d) ++ [(name, .localFile text)] := by
    simp only [fileEntries, Dir.withFile, NameMap.insert_of_notMem hlocal, List.map_append,
      List.map_cons, List.map_nil]
  rw [ofLayers, NameMap.mem_names_ofList] at h
  simp only [ofLayers, hentries]
  rw [← List.append_assoc, NameMap.ofList_concat h]

/-- A permanent file is shown if the local layer has none of its name. -/
theorem get?_files_of_permanent {name : String} {d : Dir FileContent} {content : FileContent}
    {l : Option (Dir String)} (hdistinct : NameMap.Distinct d.files)
    (hfile : NameMap.get? name d.files = some content)
    (hlocal : l.bind (fun sub => NameMap.get? name sub.files) = none) :
    NameMap.get? name (ofLayers (some d) l).files = some (.permanentFile content) := by
  have hnone : NameMap.get? name (fileEntries .localFile l).reverse = none := by
    refine NameMap.get?_reverse_eq_none ?_
    rw [get?_fileEntries, hlocal, Option.map_none]
  rw [get?_files_ofLayers, hnone, Option.none_or,
    NameMap.get?_reverse (distinct_fileEntries .permanentFile hdistinct), get?_fileEntries,
    Option.bind_some, hfile, Option.map_some]

-- A view without names shows nothing.
theorem isEmpty_eq (v : View) :
    v.isEmpty = ((NameMap.names v.dirs).isEmpty && (NameMap.names v.files).isEmpty) := by
  rw [isEmpty, NameMap.names, NameMap.names, List.isEmpty_map, List.isEmpty_map]

/-- A listing consists of names. -/
theorem listing_congr {v w : View} (hdirs : NameMap.names v.dirs = NameMap.names w.dirs)
    (hfiles : NameMap.names v.files = NameMap.names w.files) : v.listing = w.listing := by
  rw [listing, listing, isEmpty_eq, isEmpty_eq, hdirs, hfiles]

end View

end StrataShell
