import StrataShell.Proofs.Agreement
import StrataShell.Proofs.Overlay

/-!
# What a Listing Says

A listing is a text, and a text could be the listing of more than one view. A
directory is marked by a slash behind its name, so a file whose name ends in a
slash would look like a directory; a line feed in a name would look like two
entries; and a file may have the very name that stands for an empty directory.

None of this happens with the names that can be created. `IsListable` says what
a name must not hold for that. Of a view with such names the listing is as good
as the view itself, as far as names go: it is cut at the line feeds, the lines
with a slash are the directories, and the others are the files.

## Main definitions

* `View.IsListable`: A name that cannot be mistaken for something else.
* `View.Listable`: All names of a view are such names.
* `View.lines`: The lines of a listing.

## Theorems

* `pieces_listing`: A listing is cut into its lines at the line feeds.
* `listing_eq_emptyListing_iff`: Only a view without entries is listed as one.
* `listing_inj`: Views of one listing have the same names in the same order.
* `names_dirs_here`, `names_files_here`: Which names are seen, in which order.
* `ls_faithful`: All of it, for the listing of the current path.
-/

namespace StrataShell

namespace View

variable {v w : View}

/-- A name that cannot be mistaken for something else in a listing: it is not
    empty and holds no line feed, no slash and no space. -/
def IsListable (name : String) : Prop :=
  name ≠ "" ∧ '\n' ∉ name.toList ∧ '/' ∉ name.toList ∧ ' ' ∉ name.toList

instance (name : String) : Decidable (IsListable name) :=
  inferInstanceAs (Decidable (_ ∧ _ ∧ _ ∧ _))

/-- All names of a view are such names. -/
def Listable (v : View) : Prop :=
  (∀ name ∈ NameMap.names v.dirs, IsListable name) ∧ ∀ name ∈ NameMap.names v.files, IsListable name

instance (v : View) : Decidable v.Listable :=
  inferInstanceAs (Decidable (_ ∧ _))

/-- The lines of a listing: the names of the directories, each with a slash behind
    it, and then those of the files. -/
def lines (v : View) : List String :=
  (NameMap.names v.dirs).map (fun name => name ++ "/") ++ NameMap.names v.files

theorem isEmpty_iff :
    v.isEmpty = true ↔ NameMap.names v.dirs = [] ∧ NameMap.names v.files = [] := by
  rw [isEmpty_eq, Bool.and_eq_true, List.isEmpty_iff, List.isEmpty_iff]

theorem lines_eq_nil_iff : v.lines = [] ↔ v.isEmpty = true := by
  rw [isEmpty_iff, lines, List.append_eq_nil_iff, List.map_eq_nil_iff]

-- The slash behind a directory is the only character that is not from a name.
theorem notMem_of_mem_lines (h : v.Listable) {line : String} (hmem : line ∈ v.lines) :
    '\n' ∉ line.toList ∧ ' ' ∉ line.toList := by
  rcases List.mem_append.mp hmem with hdir | hfile
  · rcases List.mem_map.mp hdir with ⟨name, hname, rfl⟩
    rcases h.1 name hname with ⟨_, hfeed, _, hspace⟩
    rw [String.toList_append, List.mem_append, List.mem_append, not_or, not_or]
    exact ⟨⟨hfeed, by decide⟩, hspace, by decide⟩
  · rcases h.2 line hfile with ⟨_, hfeed, _, hspace⟩
    exact ⟨hfeed, hspace⟩

/-- A listing is cut into its lines at the line feeds. -/
theorem pieces_listing (h : v.Listable) (hne : v.isEmpty = false) :
    Text.pieces '\n' v.listing = v.lines := by
  have hnot : ¬ v.isEmpty = true := Bool.eq_false_iff.mp hne
  rw [listing, if_neg hnot]
  exact Text.pieces_intercalate (fun line hmem => (notMem_of_mem_lines h hmem).1)
    (fun hnil => hnot (lines_eq_nil_iff.mp hnil))

/-- Only a view without entries is listed as one: the words for it have spaces
    between them. -/
theorem listing_eq_emptyListing_iff (h : v.Listable) :
    v.listing = emptyListing ↔ v.isEmpty = true := by
  constructor
  · intro hlisting
    refine Decidable.byContradiction (fun hne => ?_)
    have hpieces := pieces_listing h (Bool.eq_false_iff.mpr hne)
    have hwhole : Text.pieces '\n' emptyListing = [emptyListing] :=
      Text.pieces_singleton (by decide)
    have hmem : emptyListing ∈ v.lines := by
      rw [← hpieces, hlisting, hwhole]
      exact List.mem_singleton_self _
    exact (notMem_of_mem_lines h hmem).2 (by decide)
  · exact fun hempty => if_pos hempty

-- The directories are the lines with a slash.
theorem filter_lines (h : v.Listable) :
    v.lines.filter (fun line => '/' ∈ line.toList)
      = (NameMap.names v.dirs).map (fun name => name ++ "/") := by
  have hdirs : ((NameMap.names v.dirs).map (fun name => name ++ "/")).filter
      (fun line => '/' ∈ line.toList) = (NameMap.names v.dirs).map (fun name => name ++ "/") := by
    refine List.filter_eq_self.mpr (List.forall_mem_map.mpr (fun name _ => ?_))
    simp
  have hfiles : (NameMap.names v.files).filter (fun line => '/' ∈ line.toList) = [] := by
    refine List.filter_eq_nil_iff.mpr (fun name hname => ?_)
    rw [decide_eq_true_eq]
    exact (h.2 name hname).2.2.1
  rw [lines, List.filter_append, hdirs, hfiles, List.append_nil]

/-- The lines tell the names, each in its group and in order. -/
theorem lines_inj (hv : v.Listable) (hw : w.Listable) (h : v.lines = w.lines) :
    NameMap.names v.dirs = NameMap.names w.dirs
      ∧ NameMap.names v.files = NameMap.names w.files := by
  have hmarked : (NameMap.names v.dirs).map (fun name => name ++ "/")
      = (NameMap.names w.dirs).map (fun name => name ++ "/") := by
    rw [← filter_lines hv, h, filter_lines hw]
  have hinjective : ∀ a b : String, a ++ "/" = b ++ "/" → a = b :=
    fun _ _ => (String.append_left_inj "/").mp
  have hrest := h
  rw [lines, lines, hmarked] at hrest
  exact ⟨(List.map_inj_right hinjective).mp hmarked, List.append_cancel_left hrest⟩

/-- Views of one listing have the same names in the same order. -/
theorem listing_inj (hv : v.Listable) (hw : w.Listable) :
    v.listing = w.listing ↔ NameMap.names v.dirs = NameMap.names w.dirs
      ∧ NameMap.names v.files = NameMap.names w.files := by
  constructor
  · intro h
    refine lines_inj hv hw ?_
    by_cases hempty : v.isEmpty = true
    · have hother : w.isEmpty = true := by
        rw [← listing_eq_emptyListing_iff hw, ← h, listing_eq_emptyListing_iff hv]
        exact hempty
      rw [lines_eq_nil_iff.mpr hempty, lines_eq_nil_iff.mpr hother]
    · have hother : ¬ w.isEmpty = true := by
        rw [← listing_eq_emptyListing_iff hw, ← h, listing_eq_emptyListing_iff hv]
        exact hempty
      rw [← pieces_listing hv (Bool.eq_false_iff.mpr hempty), h,
        pieces_listing hw (Bool.eq_false_iff.mpr hother)]
  · rintro ⟨hdirs, hfiles⟩
    exact listing_congr hdirs hfiles

end View

namespace FileSystem

variable {fs fs' : FileSystem} {name : String}

/-! ### The names that are seen -/

/-- The directories that are seen: those of the permanent tree, and then those that
    only the local tree has. -/
theorem names_dirs_here (hp : fs.permanentTree.Distinct) (hl : fs.localTree.Distinct) :
    NameMap.names fs.here.dirs = fs.permanentTree.dirNamesAt fs.place
      ++ (fs.localTree.dirNamesAt fs.place).filter
        (fun name => name ∉ fs.permanentTree.dirNamesAt fs.place) := by
  rw [here_getD, View.dirs_ofLayers (hp.getD_resolve fs.place).2
    (hl.getD_resolve fs.place).2, NameMap.names_merge, Dir.dirNamesAt_eq, Dir.dirNamesAt_eq]
  simp only [NameMap.not_contains_eq]

/-- The files that are seen, in the same order of the layers. -/
theorem names_files_here (hp : fs.permanentTree.Distinct) (hl : fs.localTree.Distinct) :
    NameMap.names fs.here.files = fs.permanentTree.fileNamesAt fs.place
      ++ (fs.localTree.fileNamesAt fs.place).filter
        (fun name => name ∉ fs.permanentTree.fileNamesAt fs.place) := by
  rw [here_getD, View.files_ofLayers (hp.getD_resolve fs.place).1
    (hl.getD_resolve fs.place).1, NameMap.names_merge, Dir.fileNamesAt_eq, Dir.fileNamesAt_eq]
  simp only [NameMap.not_contains_eq]

/-! ### The names that can be created -/

theorem isFileName_of_isDirName (h : isDirName name = true) : isFileName name = true := by
  rw [isDirName, Bool.and_eq_true] at h
  rw [isFileName, Bool.and_eq_true]
  refine ⟨h.1, List.all_eq_true.mpr (fun c hc => ?_)⟩
  rw [List.all_eq_true.mp h.2 c hc, Bool.true_or]

/-- A name that a file may be given cannot be mistaken for something else. -/
theorem isListable_of_isFileName (h : isFileName name = true) : View.IsListable name := by
  rw [isFileName, Bool.and_eq_true, decide_eq_true_eq] at h
  have hnot : ∀ c : Char, (c.isAlphanum || c == '.') = false → c ∉ name.toList := by
    intro c hc hmem
    rw [List.all_eq_true.mp h.2 c hmem] at hc
    exact Bool.true_eq_false.mp hc
  exact ⟨h.1, hnot '\n' (by decide), hnot '/' (by decide), hnot ' ' (by decide)⟩

/-- What is created can be listed, with what was there. -/
theorem listable_of_created (hnames : fs.here.Listable)
    (h : fs.mkdir name = .ok fs' ∨ fs.touch name = .ok fs') :
    View.IsListable name ∧ fs'.here.Listable := by
  have hadd : ∀ {names : List String}, (∀ other ∈ names, View.IsListable other) →
      View.IsListable name → ∀ other ∈ names ++ [name], View.IsListable other := by
    intro names hall hone other hmem
    rcases List.mem_append.mp hmem with hold | hnew
    · exact hall other hold
    · exact List.mem_singleton.mp hnew ▸ hone
  rcases h with hmkdir | htouch
  · have hname : View.IsListable name :=
      isListable_of_isFileName (isFileName_of_isDirName (mkdir_eq_ok_iff.mp hmkdir).1)
    rcases here_of_mkdir hmkdir with ⟨hdirs, hfiles⟩
    rw [View.Listable, hdirs, hfiles, NameMap.names, List.map_append]
    exact ⟨hname, hadd hnames.1 hname, hnames.2⟩
  · have hname : View.IsListable name := isListable_of_isFileName (touch_eq_ok_iff.mp htouch).1
    rcases here_of_touch htouch with ⟨hfiles, hdirs⟩
    rw [View.Listable, hdirs, hfiles, NameMap.names, NameMap.names, List.map_append]
    exact ⟨hname, hnames.1, hadd hnames.2 hname⟩

/-- The listing of a place whose names can be listed is faithful. It is the text for
    an empty directory exactly if nothing is seen. If something is, the lines are
    the directories, each with a slash behind it, and then the files. In either
    group each name of the two layers occurs once, the permanent ones in their order
    and then those that only the local tree has. So two places are listed alike
    exactly if the same directories and the same files are seen in the same order.
    What is created at the place keeps this up. -/
theorem ls_faithful (fs : FileSystem) (hnames : fs.here.Listable) :
    let dirs := NameMap.names fs.here.dirs
    let files := NameMap.names fs.here.files
    (fs.ls = "Directory is empty" ↔ dirs = [] ∧ files = [])
      ∧ (¬ (dirs = [] ∧ files = []) →
        Text.pieces '\n' fs.ls = dirs.map (fun name => name ++ "/") ++ files)
      ∧ dirs.Nodup ∧ files.Nodup
      ∧ (fs.permanentTree.Distinct → fs.localTree.Distinct →
        dirs = fs.permanentTree.dirNamesAt fs.place ++ (fs.localTree.dirNamesAt fs.place).filter
          (fun name => name ∉ fs.permanentTree.dirNamesAt fs.place)
        ∧ files = fs.permanentTree.fileNamesAt fs.place
          ++ (fs.localTree.fileNamesAt fs.place).filter
            (fun name => name ∉ fs.permanentTree.fileNamesAt fs.place))
      ∧ (∀ other : FileSystem, other.here.Listable → (fs.ls = other.ls
        ↔ dirs = NameMap.names other.here.dirs ∧ files = NameMap.names other.here.files))
      ∧ (∀ name fs', fs.mkdir name = .ok fs' ∨ fs.touch name = .ok fs' →
        View.IsListable name ∧ fs'.here.Listable) := by
  intro dirs files
  refine ⟨?_, fun hne => View.pieces_listing hnames ?_, View.distinct_dirs _ _,
    View.distinct_files _ _, fun hp hl => ⟨names_dirs_here hp hl, names_files_here hp hl⟩,
    fun other hother => View.listing_inj hnames hother,
    fun name fs' => listable_of_created hnames⟩
  · rw [← View.isEmpty_iff]
    exact View.listing_eq_emptyListing_iff hnames
  · rw [Bool.eq_false_iff, Ne, View.isEmpty_iff]
    exact hne

/-- A place of both layers, with one name for a directory and for a file, and with
    another for a directory of either layer. -/
theorem ls_faithful_shared :
    let permanentTree : Dir FileContent :=
      { files := [("a", .deferred "a")], dirs := [("a", {}), ("docs", {})] }
    let localTree : Dir String := { files := [("b.txt", "")], dirs := [("docs", {}), ("c", {})] }
    let fs : FileSystem := { permanentTree := permanentTree, localTree := localTree }
    permanentTree.Distinct ∧ localTree.Distinct ∧ fs.here.Listable
      ∧ NameMap.names fs.here.dirs = ["a", "docs"] ++ ["c"]
      ∧ Text.pieces '\n' fs.ls = ["a/", "docs/", "c/", "a", "b.txt"]
      ∧ fs.ls ≠ "Directory is empty" := by
  intro permanentTree localTree fs
  have hempty : ∀ F, (({} : Dir F)).Distinct :=
    fun F => Dir.Distinct.of_entries List.nodup_nil List.nodup_nil (List.forall_mem_nil _)
  have hp : permanentTree.Distinct :=
    Dir.Distinct.of_entries (by decide) (by decide) (List.forall_mem_cons.mpr
      ⟨hempty _, List.forall_mem_singleton.mpr (hempty _)⟩)
  have hl : localTree.Distinct :=
    Dir.Distinct.of_entries (by decide) (by decide) (List.forall_mem_cons.mpr
      ⟨hempty _, List.forall_mem_singleton.mpr (hempty _)⟩)
  have hnames : fs.here.Listable := by decide
  have hseen : ¬ (NameMap.names fs.here.dirs = [] ∧ NameMap.names fs.here.files = []) := by decide
  rcases ls_faithful fs hnames with ⟨hblank, hlines, -, -, horder, -⟩
  exact ⟨hp, hl, hnames, (horder hp hl).1.trans (by decide), (hlines hseen).trans (by decide),
    fun hc => hseen (hblank.mp hc)⟩

end FileSystem

end StrataShell
