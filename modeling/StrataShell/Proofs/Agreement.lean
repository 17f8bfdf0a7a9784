import StrataShell.Proofs.FileSystem
import StrataShell.Proofs.View
import StrataShell.Session

/-!
# The Operations Agree With the View

Every operation looks for itself whether a name is there. Moving asks both
trees for a directory, and so does making one. Making a file asks the permanent
tree for a file of that name and then the local directory, and reading asks the
merged view. None of them asks what another one asks, and they ask in different
orders. What the user sees, however, is the view alone, so this module says of
each operation what it answers in terms of the view.

A creation that succeeds is also seen at once and in one place: behind the
entries that were there, in the local layer. The other kind of entry is not
touched.

## Theorems

* `mem_dirs_here`, `mem_files_here`: What is seen is what the existence tests
  find.
* `here_of_mkdir`, `here_of_touch`: What is seen after a creation.
* `fileText_eq_notFound_iff`: Reading misses a file exactly if it is not seen.
* `operations_agree_with_view`: Every operation agrees with the view.
-/

namespace StrataShell

namespace FileSystem

variable {fs fs' : FileSystem} {name : String}

-- A directory that is seen is one that moving and making a directory find.
theorem mem_dirs_here : name ∈ NameMap.names fs.here.dirs ↔ fs.hasDir name = true := by
  rw [here, view, View.mem_dirs_ofLayers, hasDir, Bool.or_eq_true]

-- A file that is seen is one of those for which making a file is refused.
theorem mem_files_here : name ∈ NameMap.names fs.here.files ↔ fs.hasPermanentFile name = true
    ∨ ∃ d, fs.localTree.resolve fs.place = some d ∧ NameMap.contains name d.files = true := by
  rw [here, view, View.mem_files_ofLayers]
  exact or_congr Iff.rfl (Option.any_eq_true _ _)

-- What is seen where the local tree has the current path.
theorem here_eq {d : Dir String} (h : fs.localTree.resolve fs.place = some d) :
    fs.here = View.ofLayers (fs.permanentAt fs.cwd) (some d) := by
  rw [← h]
  rfl

-- And what is seen there after a change of the local directory.
theorem here_modifyHere {d : Dir String} (h : fs.localTree.resolve fs.place = some d)
    (f : Dir String → Dir String) :
    (fs.modifyHere f).here = View.ofLayers (fs.permanentAt fs.cwd) (some (f d)) := by
  have hchanged : (fs.modifyHere f).localTree.resolve fs.place = some (f d) := by
    rw [modifyHere, ← place, Dir.resolve_modifyAt_self, h, Option.map_some]
  exact here_eq hchanged

/-- A new directory is seen behind the others, and the files are seen as
    before. -/
theorem here_of_mkdir (h : fs.mkdir name = .ok fs') :
    fs'.here.dirs = fs.here.dirs ++ [(name, .localLayer)] ∧ fs'.here.files = fs.here.files := by
  rcases mkdir_eq_ok_iff.mp h with ⟨_, hdir, hplace, hfs⟩
  rcases Option.isSome_iff_exists.mp hplace with ⟨d, hd⟩
  have hnew : name ∉ NameMap.names fs.here.dirs := by
    rw [mem_dirs_here, hdir]
    exact Bool.false_ne_true
  have hafter : fs'.here
      = View.ofLayers (fs.permanentAt fs.cwd) (some (d.withDir name Dir.empty)) := by
    rw [hfs]
    exact here_modifyHere hd (fun sub => sub.withDir name Dir.empty)
  rw [here_eq hd] at hnew
  rw [here_eq hd, hafter]
  exact ⟨View.dirs_ofLayers_withDir hnew Dir.empty, rfl⟩

/-- A new file is seen behind the others, with an empty text, and the
    directories are seen as before. -/
theorem here_of_touch (h : fs.touch name = .ok fs') :
    fs'.here.files = fs.here.files ++ [(name, .localFile "")] ∧ fs'.here.dirs = fs.here.dirs := by
  rcases touch_eq_ok_iff.mp h with ⟨_, hfile, ⟨d, hd, hfree⟩, hfs⟩
  have hnew : name ∉ NameMap.names fs.here.files := by
    rw [mem_files_here, hfile]
    rintro (hc | ⟨d', hd', hmem⟩)
    · exact absurd hc Bool.false_ne_true
    · rw [hd, Option.some.injEq] at hd'
      rw [← hd', hfree] at hmem
      exact absurd hmem Bool.false_ne_true
  have hafter : fs'.here
      = View.ofLayers (fs.permanentAt fs.cwd) (some (d.withFile name "")) := by
    rw [hfs]
    exact here_modifyHere hd (fun sub => sub.withFile name "")
  rw [here_eq hd] at hnew
  rw [here_eq hd, hafter]
  exact ⟨View.files_ofLayers_withFile hnew "", rfl⟩

-- Moving down succeeds by the names of the directories that are seen.
theorem exists_cd_eq_ok_iff (hup : name ≠ up) :
    (∃ fs', fs.cd name = .ok fs') ↔ name ∈ NameMap.names fs.here.dirs := by
  rw [mem_dirs_here]
  constructor
  · rintro ⟨fs', hcd⟩
    rcases cd_eq_ok_iff.mp hcd with ⟨hc, _⟩ | ⟨_, hdir, _⟩
    · exact absurd hc hup
    · exact hdir
  · intro hdir
    exact ⟨_, cd_eq_ok_iff.mpr (Or.inr ⟨hup, hdir, rfl⟩)⟩

theorem mkdir_eq_directoryExists_iff (hname : isDirName name = true) :
    fs.mkdir name = .error .directoryExists ↔ name ∈ NameMap.names fs.here.dirs := by
  rw [mem_dirs_here, mkdir_eq_error_iff]
  simp [hname]

theorem touch_eq_permanentConflict_iff (hname : isFileName name = true) :
    fs.touch name = .error .permanentConflict ↔ fs.hasPermanentFile name = true := by
  rw [touch_eq_error_iff]
  simp [hname]

-- The two refusals for a file that is there already, taken together.
theorem touch_refused_iff (hname : isFileName name = true) :
    fs.touch name = .error .permanentConflict ∨ fs.touch name = .error .fileExists
      ↔ name ∈ NameMap.names fs.here.files := by
  rw [mem_files_here, touch_eq_permanentConflict_iff hname]
  by_cases hfile : fs.hasPermanentFile name = true
  · simp only [hfile, true_or]
  · rw [or_iff_right hfile, or_iff_right hfile, touch_eq_error_iff]
    simp [hname, hfile]

end FileSystem

namespace Session

/-- Reading misses a file exactly if it is not seen. A content that does not
    come is another failure. -/
theorem fileText_eq_notFound_iff (provider : Option Content.Provider) (s : Session)
    (name : String) : (s.fileText name).run provider = .error (.fileSystem .fileNotFound)
      ↔ name ∉ NameMap.names s.fileSystem.here.files := by
  rw [← NameMap.get?_eq_none_iff, fileText]
  cases NameMap.get? name s.fileSystem.here.files with
  | none => simp [Step.run]
  | some ref =>
    cases ref with
    | localFile text => simp [Step.run]
    | permanentFile content =>
      cases content with
      | inlineText text => simp [Step.run]
      | deferred path =>
        simp only [Step.run]
        cases Content.fetchText provider path with
        | ok text | error reason => exact ⟨nofun, nofun⟩

-- A file that has just been made is read as empty, without asking anyone.
theorem fileText_of_touch (provider : Option Content.Provider) {s : Session} {name : String}
    {fs : FileSystem} (h : s.fileSystem.touch name = .ok fs) :
    (({ s with fileSystem := fs } : Session).fileText name).run provider = .ok "" := by
  have hseen : NameMap.get? name fs.here.files = some (.localFile "") := by
    have hnew : name ∉ NameMap.names s.fileSystem.here.files := by
      rcases FileSystem.touch_eq_ok_iff.mp h with ⟨hname, _⟩
      rw [← FileSystem.touch_refused_iff hname, h]
      simp
    rw [(FileSystem.here_of_touch h).1, NameMap.get?_append, NameMap.get?_eq_none_iff.mpr hnew]
    simp only [Option.none_or, NameMap.get?, if_true]
  simp only [fileText, hseen, Step.run]

/-- Every operation agrees with what is seen at the current path, wherever that
    is and whatever the two trees hold. Moving down succeeds by the names of the
    directories that are seen. A directory of a fit name exists for `mkdir`
    exactly if it is seen, and a file for `touch` and for reading; `touch` tells
    the permanent files from the others. A new entry is seen in the local layer
    behind the entries of its kind, a new file is read as empty, and the entries
    of the other kind are seen as before. -/
theorem operations_agree_with_view (provider : Option Content.Provider) (s : Session)
    (name : String) :
    let fs := s.fileSystem
    let seen := fs.here
    (name ≠ FileSystem.up →
        ((∃ fs', fs.cd name = .ok fs') ↔ name ∈ NameMap.names seen.dirs))
      ∧ (FileSystem.isDirName name = true →
        (fs.mkdir name = .error .directoryExists ↔ name ∈ NameMap.names seen.dirs))
      ∧ (FileSystem.isFileName name = true →
        (fs.touch name = .error .permanentConflict ∨ fs.touch name = .error .fileExists
          ↔ name ∈ NameMap.names seen.files)
        ∧ (fs.touch name = .error .permanentConflict
          ↔ (fs.permanentTree.fileAt? fs.place name).isSome = true))
      ∧ ((s.fileText name).run provider = .error (.fileSystem .fileNotFound)
        ↔ name ∉ NameMap.names seen.files)
      ∧ (∀ fs', fs.mkdir name = .ok fs' →
        fs'.here.dirs = seen.dirs ++ [(name, .localLayer)] ∧ fs'.here.files = seen.files)
      ∧ (∀ fs', fs.touch name = .ok fs' →
        fs'.here.files = seen.files ++ [(name, .localFile "")] ∧ fs'.here.dirs = seen.dirs
        ∧ (({ s with fileSystem := fs' } : Session).fileText name).run provider = .ok "") := by
  intro fs seen
  refine ⟨FileSystem.exists_cd_eq_ok_iff, FileSystem.mkdir_eq_directoryExists_iff,
    fun hname => ⟨FileSystem.touch_refused_iff hname, ?_⟩,
    fileText_eq_notFound_iff provider s name, fun fs' hmkdir => FileSystem.here_of_mkdir hmkdir,
    fun fs' htouch => ?_⟩
  · rw [FileSystem.touch_eq_permanentConflict_iff hname, FileSystem.hasPermanentFile_iff]
  · have hhere := FileSystem.here_of_touch htouch
    exact ⟨hhere.1, hhere.2, fileText_of_touch provider htouch⟩

end Session

end StrataShell
