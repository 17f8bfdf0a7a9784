import StrataShell.FileSystem
import StrataShell.Proofs.Growth
import StrataShell.Proofs.Path

/-!
# What the Operations of the File System Do

One statement for each operation that may change something: under which
condition it succeeds, and with which file system. Everything that is proved
about sequences of operations rests on these statements and on nothing else
that the operations are made of.

An existence test of the file system looks into the directory at the current
path. Said of the whole tree it asks whether a list of names leads somewhere,
which is the form that compares well with what a later walk will find.

## Theorems

* `hasDir_iff`, `hasPermanentFile_iff`: The existence tests, said of the trees.
* `mkdir_eq_ok_iff`, `touch_eq_ok_iff`, `cd_eq_ok_iff`: When an operation
  succeeds, and what it leaves.
* `mkdir_eq_error_iff`, `touch_eq_error_iff`, `cd_eq_error_iff`: When it is
  refused, and why.
* `grows_of_mkdir`, `grows_of_touch`: A successful creation is growth.
* `isSegment_of_isDirName`: A name for a new directory can be walked to.
-/

namespace StrataShell

namespace FileSystem

/-- The segments of the current path. -/
def place (fs : FileSystem) : List String :=
  Path.segments fs.cwd

-- A directory lists a name exactly when the name leads on from it.
theorem any_contains_dirs {F : Type} (p : List String) (name : String) (d : Dir F) :
    (d.resolve p).any (fun sub => NameMap.contains name sub.dirs)
      = (d.resolve (p ++ [name])).isSome := by
  rw [Dir.resolve_append]
  cases d.resolve p with
  | none => rfl
  | some sub =>
    rw [Option.any_some, Option.bind_some, Dir.resolve_cons, NameMap.contains]
    cases NameMap.get? name sub.dirs <;> rfl

/-- The current path has a directory of a name exactly when one of the trees
    leads on from there by that name. -/
theorem hasDir_iff {fs : FileSystem} {name : String} :
    fs.hasDir name = true ↔ (fs.permanentTree.resolve (fs.place ++ [name])).isSome = true
      ∨ (fs.localTree.resolve (fs.place ++ [name])).isSome = true := by
  rw [hasDir, permanentAt, localAt, any_contains_dirs, any_contains_dirs, Bool.or_eq_true]
  rfl

/-- The current path has a permanent file of a name exactly when the permanent
    tree has it there. -/
theorem hasPermanentFile_iff {fs : FileSystem} {name : String} :
    fs.hasPermanentFile name = true
      ↔ (fs.permanentTree.fileAt? fs.place name).isSome = true := by
  rw [hasPermanentFile, permanentAt, Dir.fileAt?, Dir.entriesAt, place]
  cases fs.permanentTree.resolve (Path.segments fs.cwd) <;> rfl

/-- A name that may be given to a directory is a segment. -/
theorem isSegment_of_isDirName {name : String} (h : isDirName name = true) :
    Path.IsSegment name := by
  rw [isDirName, Bool.and_eq_true, decide_eq_true_eq] at h
  refine ⟨h.1, fun hmem => ?_⟩
  have hslash := List.all_eq_true.mp h.2 Path.separator hmem
  exact absurd hslash (by decide)

/-- The file system with one more local entry. -/
def withCreation (fs : FileSystem) (c : Creation) : FileSystem :=
  { fs with localTree := c.make fs.localTree }

/-- A directory is made if the name is fit and free in both layers and the
    current path exists in the local one. -/
theorem mkdir_eq_ok_iff {fs fs' : FileSystem} {name : String} :
    fs.mkdir name = .ok fs' ↔ isDirName name = true ∧ fs.hasDir name = false
      ∧ (fs.localTree.resolve fs.place).isSome = true
      ∧ fs' = fs.withCreation (.dir fs.place name) := by
  cases hname : isDirName name with
  | false => simp [mkdir, hname]
  | true =>
    cases hdir : fs.hasDir name with
    | true => simp [mkdir, hname, hdir]
    | false =>
      have hplace : fs.localAt fs.cwd = fs.localTree.resolve fs.place := rfl
      have hmake : fs.modifyHere (fun d => d.withDir name Dir.empty)
          = fs.withCreation (.dir fs.place name) := rfl
      cases hl : fs.localTree.resolve fs.place with
      | none => simp [mkdir, hname, hdir, hplace, hl]
      | some d =>
        simp only [mkdir, hname, hdir, hplace, hl, hmake]
        simpa using eq_comm

/-- A file is made if the name is fit and free in both layers and the current
    path exists in the local one. -/
theorem touch_eq_ok_iff {fs fs' : FileSystem} {name : String} :
    fs.touch name = .ok fs' ↔ isFileName name = true ∧ fs.hasPermanentFile name = false
      ∧ (∃ d, fs.localTree.resolve fs.place = some d ∧ NameMap.contains name d.files = false)
      ∧ fs' = fs.withCreation (.file fs.place name) := by
  cases hname : isFileName name with
  | false => simp [touch, hname]
  | true =>
    cases hfile : fs.hasPermanentFile name with
    | true => simp [touch, hname, hfile]
    | false =>
      have hplace : fs.localAt fs.cwd = fs.localTree.resolve fs.place := rfl
      have hmake : fs.modifyHere (fun d => d.withFile name "")
          = fs.withCreation (.file fs.place name) := rfl
      cases hl : fs.localTree.resolve fs.place with
      | none => simp [touch, hname, hfile, hplace, hl]
      | some d =>
        cases hfree : NameMap.contains name d.files with
        | true => simp [touch, hname, hfile, hplace, hl, hfree]
        | false =>
          simp only [touch, hname, hfile, hplace, hl, hfree, hmake]
          simpa [hfree] using eq_comm

/-- A directory is refused for its name, for a directory of that name in either
    layer, or for want of a local directory to put it in, in this order. -/
theorem mkdir_eq_error_iff {fs : FileSystem} {name : String} {cause : Error} :
    fs.mkdir name = .error cause ↔ (isDirName name = false ∧ cause = .badCommand "mkdir")
      ∨ (isDirName name = true ∧ fs.hasDir name = true ∧ cause = .directoryExists)
      ∨ (isDirName name = true ∧ fs.hasDir name = false
        ∧ fs.localTree.resolve fs.place = none ∧ cause = .localDirMissing) := by
  cases hname : isDirName name with
  | false =>
    simp only [mkdir, hname]
    simpa using eq_comm
  | true =>
    cases hdir : fs.hasDir name with
    | true =>
      simp only [mkdir, hname, hdir]
      simpa using eq_comm
    | false =>
      have hplace : fs.localAt fs.cwd = fs.localTree.resolve fs.place := rfl
      cases hl : fs.localTree.resolve fs.place with
      | none =>
        simp only [mkdir, hname, hdir, hplace, hl]
        simpa using eq_comm
      | some d => simp [mkdir, hname, hdir, hplace, hl]

/-- A file is refused for its name, for a permanent file of that name, for want
    of a local directory to put it in, or for a local file of that name, in this
    order. -/
theorem touch_eq_error_iff {fs : FileSystem} {name : String} {cause : Error} :
    fs.touch name = .error cause ↔ (isFileName name = false ∧ cause = .badCommand "touch")
      ∨ (isFileName name = true ∧ fs.hasPermanentFile name = true ∧ cause = .permanentConflict)
      ∨ (isFileName name = true ∧ fs.hasPermanentFile name = false
        ∧ fs.localTree.resolve fs.place = none ∧ cause = .localDirMissing)
      ∨ (isFileName name = true ∧ fs.hasPermanentFile name = false
        ∧ (∃ d, fs.localTree.resolve fs.place = some d ∧ NameMap.contains name d.files = true)
        ∧ cause = .fileExists) := by
  cases hname : isFileName name with
  | false =>
    simp only [touch, hname]
    simpa using eq_comm
  | true =>
    cases hfile : fs.hasPermanentFile name with
    | true =>
      simp only [touch, hname, hfile]
      simpa using eq_comm
    | false =>
      have hplace : fs.localAt fs.cwd = fs.localTree.resolve fs.place := rfl
      cases hl : fs.localTree.resolve fs.place with
      | none =>
        simp only [touch, hname, hfile, hplace, hl]
        simpa using eq_comm
      | some d =>
        cases hfree : NameMap.contains name d.files with
        | true =>
          simp only [touch, hname, hfile, hplace, hl, hfree]
          simpa [hfree] using eq_comm
        | false => simp [touch, hname, hfile, hplace, hl, hfree]

/-- Moving succeeds upwards anywhere below the root, and downwards by the name
    of a directory. -/
theorem cd_eq_ok_iff {fs fs' : FileSystem} {name : String} :
    fs.cd name = .ok fs' ↔
      (name = up ∧ fs.place ≠ [] ∧ fs' = { fs with cwd := Path.parent fs.cwd })
      ∨ (name ≠ up ∧ fs.hasDir name = true ∧ fs' = { fs with cwd := Path.join fs.cwd name }) := by
  by_cases hup : name = up
  · by_cases hroot : fs.place = []
    · have hr : Path.isRoot fs.cwd = true := Path.isRoot_iff.mpr hroot
      simp [cd, hup, hr, hroot]
    · have hr : ¬ Path.isRoot fs.cwd = true := fun hc => hroot (Path.isRoot_iff.mp hc)
      simp only [cd, hup, if_true, if_neg hr]
      simpa [hroot] using eq_comm
  · cases hdir : fs.hasDir name with
    | false => simp [cd, hup, hdir]
    | true =>
      simp only [cd, if_neg hup, hdir, if_true]
      simpa [hup] using eq_comm

/-- Moving fails upwards at the root, and downwards if there is no directory
    of the name. -/
theorem cd_eq_error_iff {fs : FileSystem} {name : String} {cause : Error} :
    fs.cd name = .error cause ↔ (name = up ∧ fs.place = [] ∧ cause = .alreadyAtRoot)
      ∨ (name ≠ up ∧ fs.hasDir name = false ∧ cause = .badCommand "cd") := by
  by_cases hup : name = up
  · by_cases hroot : fs.place = []
    · have hr : Path.isRoot fs.cwd = true := Path.isRoot_iff.mpr hroot
      simp only [cd, hup, hr, if_true]
      simpa [hroot] using eq_comm
    · have hr : ¬ Path.isRoot fs.cwd = true := fun hc => hroot (Path.isRoot_iff.mp hc)
      simp [cd, hup, hr, hroot]
  · cases hdir : fs.hasDir name with
    | true => simp [cd, hup, hdir]
    | false =>
      simp only [cd, if_neg hup, hdir]
      simpa [hup] using eq_comm

-- The checks of the operations are what growth asks for.
theorem grows_of_mkdir {fs fs' : FileSystem} {name : String} (h : fs.mkdir name = .ok fs') :
    (Creation.dir fs.place name).Grows fs.localTree fs'.localTree := by
  rcases mkdir_eq_ok_iff.mp h with ⟨_, hdir, hplace, hfs⟩
  rcases Option.isSome_iff_exists.mp hplace with ⟨sub, hsub⟩
  rw [hfs]
  refine Creation.grows_make_dir hsub ?_
  -- The local directory does not list the name, or the existence test had found it.
  intro hmem
  rw [← Bool.not_eq_true, hasDir_iff, not_or, ← any_contains_dirs fs.place name fs.localTree,
    hsub] at hdir
  exact hdir.2 (NameMap.mem_names_iff.mp hmem)

theorem grows_of_touch {fs fs' : FileSystem} {name : String} (h : fs.touch name = .ok fs') :
    (Creation.file fs.place name).Grows fs.localTree fs'.localTree := by
  rcases touch_eq_ok_iff.mp h with ⟨_, _, ⟨sub, hsub, hfree⟩, hfs⟩
  rw [hfs]
  refine Creation.grows_make_file hsub ?_
  rw [NameMap.mem_names_iff]
  exact Bool.not_eq_true _ ▸ hfree

end FileSystem

end StrataShell
