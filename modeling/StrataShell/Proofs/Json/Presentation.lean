import StrataShell.Proofs.Json.Tree

/-!
# Trees in Any Writing

A document leaves two kinds of freedom. The data of a tree may be told in several
ways, and each value may be written in several ways. Neither has any influence on
the tree that is read: the reader of documents takes every writing of a value for
that value, and the reader of trees every telling of a tree for that tree.

What may stand in a document besides the tree has to be well formed, but it is not
looked into where nobody asks for it. A deferred content is the exception, since
its whole record is read, so what stands beside its path counts for the nesting.

In return the reader is strict about what it does look at. Where a directory is
expected it takes no value of another form, and where a file is expected none that
tells no content.

## Theorems

* `readsBack_permanent`, `readsBack_local`: The contents of either layer are read
  from whatever tells them.
* `read_presentation`: A tree is read from every presentation of it, and from
  nothing that has another value in the place of a file or a directory.
-/

namespace StrataShell

namespace Json

/-- A text tells an inline content, and a record a deferred one if there is room for
    all of it. -/
theorem readsBack_permanent (content : FileContent) :
    Dir.ReadsBack FileContent.Tells permanentReading.file Datum.nesting content := by
  intro told htold room
  cases htold with
  | inlineText text => exact (if_pos room.fits_zero).symm
  | deferred path fields plain hpath =>
    have hreadable := Datum.isReadable_of_isPlain (.record fields) room plain
    show FileContent.ofDatum? room (.record fields) = _
    rw [FileContent.ofDatum?, hreadable, hpath]

theorem readsBack_local (content : String) :
    Dir.ReadsBack (fun text told => told = .text text) localReading.file Datum.nesting content := by
  rintro told rfl room
  exact (if_pos room.fits_zero).symm

section Layer

variable {F : Type} {tells : F → Datum → Prop} {reading : Dir.Reading F} {tree : Dir F}

/-- What a document is read as if its value tells a tree. -/
theorem read_document (h : ∀ content, Dir.ReadsBack tells reading.file Datum.nesting content)
    (hd : tree.Distinct) {d : Datum} (htells : Dir.Tells tells tree d) {document : String}
    (hdocument : Document d document) :
    (parse? document).bind (Dir.ofDatum? reading room)
      = if Dir.reach d ≤ nestingLimit then some tree else none := by
  rw [parse?_document hdocument, Option.bind_some, Dir.ofDatum?_of_tells h hd d htells]
  simp only [room, Datum.Room.fits, decide_eq_true_eq]

/-- What stands where a directory or a file is expected in a document that is read. -/
theorem read_of_document (hextra : reading.extraItems = false) {document : String}
    (h : (parse? document).bind (Dir.ofDatum? reading room) = some tree) :
    ∃ root, parse? document = some root ∧ ∀ node, Dir.InTree root node →
      node ≠ .null ∧ ∀ value ∈ Dir.fileValues node, ∃ inner content,
        reading.file inner value = some content := by
  rcases Option.bind_eq_some_iff.mp h with ⟨root, hroot, htree⟩
  refine ⟨root, hroot, fun node hnode => ?_⟩
  rcases Dir.read_of_inTree hextra htree hnode with ⟨hform, hfiles⟩
  refine ⟨fun hnull => ?_, hfiles⟩
  rw [hnull] at hform
  exact hform

end Layer

/-- A tree of either layer is read from every presentation of it, in whatever way its
    directories and contents are told and its values are written. The one proviso is
    the bound on nesting, and only what the reader goes into counts for it. And what
    is read as a tree has no null where a file or a directory is expected, and in the
    local layer nothing but texts where a file is. -/
theorem read_presentation :
    (∀ (tree : Dir FileContent) (d : Datum) (document : String), tree.Distinct →
      Dir.Tells FileContent.Tells tree d → Document d document →
      readPermanent? document = if Dir.reach d ≤ nestingLimit then some tree else none)
    ∧ (∀ (tree : Dir String) (d : Datum) (document : String), tree.Distinct →
      Dir.Tells (fun text told => told = .text text) tree d → Document d document →
      readLocal? document = if Dir.reach d ≤ nestingLimit then some tree else none)
    ∧ (∀ d : Datum, Dir.reach d ≤ d.nesting)
    ∧ (∀ (document : String) (tree : Dir FileContent), readPermanent? document = some tree →
      ∃ root, parse? document = some root ∧ ∀ node, Dir.InTree root node →
        node ≠ .null ∧ ∀ value ∈ Dir.fileValues node, value ≠ .null)
    ∧ (∀ (document : String) (tree : Dir String), readLocal? document = some tree →
      ∃ root, parse? document = some root ∧ ∀ node, Dir.InTree root node →
        node ≠ .null ∧ ∀ value ∈ Dir.fileValues node, ∃ text, value = .text text) := by
  refine ⟨fun tree d document hd htells hdocument => ?_,
    fun tree d document hd htells hdocument => ?_, Dir.reach_le_nesting,
    fun document tree h => ?_, fun document tree h => ?_⟩
  · exact read_document readsBack_permanent hd htells hdocument
  · exact read_document readsBack_local hd htells hdocument
  · rcases read_of_document rfl h with ⟨root, hroot, hnodes⟩
    refine ⟨root, hroot, fun node hnode => ⟨(hnodes node hnode).1, fun value hvalue hnull => ?_⟩⟩
    rcases (hnodes node hnode).2 value hvalue with ⟨inner, content, hcontent⟩
    rw [hnull] at hcontent
    exact Option.some_ne_none content hcontent.symm
  · rcases read_of_document rfl h with ⟨root, hroot, hnodes⟩
    refine ⟨root, hroot, fun node hnode => ⟨(hnodes node hnode).1, fun value hvalue => ?_⟩⟩
    rcases (hnodes node hnode).2 value hvalue with ⟨inner, content, hcontent⟩
    cases value with
    | text text => exact ⟨text, rfl⟩
    | _ => exact absurd hcontent.symm (Option.some_ne_none content)

/-- Two presentations. The permanent tree is told by a record with its parts in the
    wrong order, a field nobody asks for, a content with a flag beside its path, and
    a subdirectory that is a list; the local one is a list of one part, written with
    blanks and escapes. -/
theorem read_presentation_mixed :
    let inner : Dir FileContent := { files := [("b", .inlineText "text")] }
    let tree : Dir FileContent := { files := [("a", .deferred "p")], dirs := [("s", inner)] }
    let content : Datum := .record [(some "new", .flag true), (some "path", .text "p")]
    let told : Datum := .record [(some "dirs", .record
        [(some "s", .list [.record [(some "b", .text "text")]])]),
      (some "note", .list [.null]), (some "files", .record [(some "a", content)])]
    let note : Dir String := { files := [("n", "𝄞")] }
    let written := "\n[ \x7b\"\\u006E\" : \"\\ud834\\uDD1E\"\x7d ]\t"
    readPermanent? (render told) = some tree ∧ readLocal? written = some note
      ∧ (∃ root, parse? (render told) = some root ∧ ∀ node, Dir.InTree root node →
        node ≠ .null ∧ ∀ value ∈ Dir.fileValues node, value ≠ .null)
      ∧ ∃ root, parse? written = some root ∧ ∀ node, Dir.InTree root node →
        node ≠ .null ∧ ∀ value ∈ Dir.fileValues node, ∃ text, value = .text text := by
  intro inner tree content told note written
  have hinner : inner.Distinct :=
    Dir.Distinct.of_entries (by decide) (by decide) (List.forall_mem_nil _)
  have htree : tree.Distinct := by
    refine Dir.Distinct.of_entries (by decide) (by decide) (fun entry hmem => ?_)
    rw [List.mem_singleton.mp hmem]
    exact hinner
  have hnote : note.Distinct :=
    Dir.Distinct.of_entries (by decide) (by decide) (List.forall_mem_nil _)
  have htold : Dir.Tells FileContent.Tells tree told := by
    have hcontent : FileContent.Tells (.deferred "p") content :=
      .deferred _ _ ⟨rfl, trivial, rfl, trivial, trivial⟩ rfl
    have hsub : Dir.Tells FileContent.Tells inner (.list [.record [(some "b", .text "text")]]) :=
      .intro _ _ (by decide) (.given (.cons (.inlineText "text") .nil)) .omitted
    exact .intro _ _ (by decide) (.given (.cons hcontent .nil)) (.given (.cons hsub .nil))
  have hplain : told.IsPlain :=
    ⟨rfl, ⟨rfl, ⟨⟨rfl, trivial, trivial⟩, trivial⟩, trivial⟩, rfl, ⟨trivial, trivial⟩, rfl,
      ⟨rfl, ⟨rfl, trivial, rfl, trivial, trivial⟩, trivial⟩, trivial⟩
  have hlist : Dir.Tells (fun text told => told = .text text) note
      (.list [.record [(some "n", .text "𝄞")]]) :=
    .intro _ _ (by decide) (.given (.cons rfl .nil)) .omitted
  have hwritten : Document (.list [.record [(some "n", .text "𝄞")]]) written := by
    have hblank : isBlank ' ' = true := rfl
    have hname : Quoted "n" ['"', '\\', 'u', '0', '0', '6', 'E', '"'] :=
      ⟨_, .cons (.long 'n' '0' '0' '6' 'E' rfl) .nil, token_self _⟩
    have htext : Quoted "𝄞" _ :=
      ⟨_, .cons (.pair '𝄞' 'd' '8' '3' '4' 'D' 'D' '1' 'E' _ _ rfl rfl rfl rfl rfl) .nil,
        (token_self _).blank hblank⟩
    have hrecord := Written.record ((token_self ['\x7b']).blank hblank)
      (.last hname ((token_self [':']).blank hblank) (.text htext) (token_self ['\x7d']))
    exact ⟨_, ['\t'], .list ((token_self ['[']).blank (show isBlank '\n' = true from rfl))
      (.last hrecord ((token_self [']']).blank hblank)), List.forall_mem_singleton.mpr rfl,
      by decide⟩
  have hpermanent : readPermanent? (render told) = some tree :=
    (read_presentation.1 tree told _ htree htold (document_render hplain)).trans
      (if_pos (by decide))
  have hlocal : readLocal? written = some note :=
    (read_presentation.2.1 note _ written hnote hlist hwritten).trans (if_pos (by decide))
  exact ⟨hpermanent, hlocal, read_presentation.2.2.2.1 _ tree hpermanent,
    read_presentation.2.2.2.2 _ note hlocal⟩

end Json

end StrataShell
