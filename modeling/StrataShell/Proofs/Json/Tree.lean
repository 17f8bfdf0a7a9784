import StrataShell.Json.Tree
import StrataShell.Proofs.Datum.Tree
import StrataShell.Proofs.Json.Parser

/-!
# The Exchange Form of Trees Loses Nothing

A tree that is written as a document and read again is the tree it was, whatever
characters stand in its names and contents. Three facts make this up. The tree
is told as a plain value, so the reader of documents gives that value back. The
two kinds of permanent contents are told as values of different kinds, so none
is taken for the other. And the reader of trees gives the tree back from the
value, as long as the format's bound on nesting is kept.

The bound is exact: a tree that does not keep it is not read at all. Written
trees are different if the trees are, with or without the bound, since the value
can be read by a reader that has none.

## Theorems

* `isPlain_toDatum`: A tree is told as a plain value.
* `inverts_permanent`, `inverts_local`: The contents of either layer are read
  back.
* `read_written_tree`: A written tree is read as the tree it was.
-/

namespace StrataShell

namespace Dir

variable {F : Type} {file : F → Datum}

theorem fieldsPlain_files (h : ∀ content, (file content).IsPlain) (files : NameMap F) :
    Datum.FieldsPlain (files.map (fun entry => (some entry.1, file entry.2))) := by
  induction files with
  | nil => trivial
  | cons entry rest ih => exact ⟨rfl, h entry.2, ih⟩

mutual

/-- A tree is told as a plain value if its contents are. -/
theorem isPlain_toDatum (h : ∀ content, (file content).IsPlain) :
    ∀ d : Dir F, (toDatum file d).IsPlain
  | ⟨files, dirs⟩ =>
    ⟨rfl, fieldsPlain_files h files, rfl, fieldsPlain_childFields h dirs, trivial⟩

-- The same for the subdirectories of a directory.
theorem fieldsPlain_childFields (h : ∀ content, (file content).IsPlain) :
    ∀ dirs : List (String × Dir F), Datum.FieldsPlain (childFields file dirs)
  | [] => trivial
  | (_, child) :: rest => ⟨rfl, isPlain_toDatum h child, fieldsPlain_childFields h rest⟩

end

end Dir

namespace Json

theorem isPlain_content (content : FileContent) : content.toDatum.IsPlain := by
  cases content with
  | inlineText text => trivial
  | deferred path => exact ⟨rfl, trivial, trivial⟩

theorem nesting_content (content : FileContent) : content.toDatum.nesting ≤ 1 := by
  cases content with
  | inlineText text => exact Nat.zero_le 1
  | deferred path => exact Nat.le_refl 1

-- A text is an inline content and a record is a deferred one, if there is room for it.
theorem inverts_permanent : permanentReading.Inverts FileContent.toDatum := by
  intro content room
  cases content with
  | inlineText text => exact (if_pos (Datum.Room.fits_zero room)).symm
  | deferred path =>
    cases room with
    | none => rfl
    | some n => cases n <;> rfl

theorem inverts_local : localReading.Inverts Datum.text := by
  intro content room
  exact (if_pos (Datum.Room.fits_zero room)).symm

section Layer

variable {F : Type} {file : F → Datum} {reading : Dir.Reading F} {tree other : Dir F}

/-- What a document that tells a tree is read as. -/
theorem read_render (hplain : ∀ content, (file content).IsPlain) (h : reading.Inverts file)
    (hd : tree.Distinct) :
    (parse? (render (tree.toDatum file))).bind (Dir.ofDatum? reading room)
      = if (tree.toDatum file).nesting ≤ nestingLimit then some tree else none := by
  rw [parse?_render (Dir.isPlain_toDatum hplain tree), Option.bind_some,
    Dir.ofDatum?_toDatum h hd]
  simp only [room, Datum.Room.fits, decide_eq_true_eq]

/-- Trees of one text are one tree. Without a bound on nesting the value of that
    text would be read as either. -/
theorem eq_of_render_eq (hplain : ∀ content, (file content).IsPlain) (h : reading.Inverts file)
    (hd : tree.Distinct) (ho : other.Distinct)
    (heq : render (tree.toDatum file) = render (other.toDatum file)) : tree = other := by
  have hvalue : tree.toDatum file = other.toDatum file :=
    render_injective (Dir.isPlain_toDatum hplain tree) (Dir.isPlain_toDatum hplain other) heq
  have htree := Dir.ofDatum?_toDatum h hd none
  have hother := Dir.ofDatum?_toDatum h ho none
  rw [hvalue, hother] at htree
  exact (Option.some.inj htree).symm

end Layer

/-- A written tree is read as the tree it was, in either layer: the same names
    in the same order, the same contents, each of its kind. The one proviso is
    the bound on nesting, and it is exact. A level of directories takes two
    records of it, and a deferred content one more. Trees that are written alike
    are one tree. -/
theorem read_written_tree :
    (∀ tree : Dir FileContent, tree.Distinct →
      let nesting := (tree.toDatum FileContent.toDatum).nesting
      readPermanent? (writePermanent tree) = (if nesting ≤ nestingLimit then some tree else none)
        ∧ 2 * tree.levels ≤ nesting ∧ nesting ≤ 2 * tree.levels + 1)
    ∧ (∀ tree : Dir String, tree.Distinct →
      let nesting := (tree.toDatum Datum.text).nesting
      readLocal? (writeLocal tree) = (if nesting ≤ nestingLimit then some tree else none)
        ∧ nesting = 2 * tree.levels)
    ∧ (∀ tree other : Dir FileContent, tree.Distinct → other.Distinct →
        writePermanent tree = writePermanent other → tree = other)
    ∧ (∀ tree other : Dir String, tree.Distinct → other.Distinct →
        writeLocal tree = writeLocal other → tree = other) := by
  have hlocal : ∀ text, (Datum.text text).IsPlain := fun _ => trivial
  have hflat : ∀ text, (Datum.text text).nesting ≤ 0 := fun _ => Nat.le_refl 0
  refine ⟨fun tree hd => ?_, fun tree hd => ?_, fun tree other hd ho => ?_,
    fun tree other hd ho => ?_⟩
  · exact ⟨read_render isPlain_content inverts_permanent hd,
      Dir.nesting_toDatum nesting_content tree⟩
  · have hbounds := Dir.nesting_toDatum hflat tree
    exact ⟨read_render hlocal inverts_local hd, Nat.le_antisymm hbounds.2 hbounds.1⟩
  · exact eq_of_render_eq isPlain_content inverts_permanent hd ho
  · exact eq_of_render_eq hlocal inverts_local hd ho

/-- A tree of names and contents that must be escaped, or look like values. -/
theorem read_written_tree_escapes :
    let inner : Dir FileContent := { files := [("a\"b", .inlineText "[1]"), ("", .deferred "\\é")] }
    let tree : Dir FileContent :=
      { files := [("\n", .inlineText "\x00\t𝄞"), ("path", .deferred "")], dirs := [("path", inner)] }
    tree.Distinct ∧ readPermanent? (writePermanent tree) = some tree := by
  intro inner tree
  have hinner : inner.Distinct :=
    Dir.Distinct.of_entries (by decide) (by decide) (fun _ hmem => absurd hmem List.not_mem_nil)
  have hd : tree.Distinct := by
    refine Dir.Distinct.of_entries (by decide) (by decide) (fun entry hmem => ?_)
    rw [List.mem_singleton.mp hmem]
    exact hinner
  have hfits : (tree.toDatum FileContent.toDatum).nesting ≤ nestingLimit := by decide
  exact ⟨hd, (read_written_tree.1 tree hd).1.trans (if_pos hfits)⟩

end Json

end StrataShell
