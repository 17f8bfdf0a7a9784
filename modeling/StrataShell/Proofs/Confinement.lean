import StrataShell.Proofs.Content.Address
import StrataShell.Proofs.Requests

/-!
# Staying Below the Content Root

The paths of deferred contents come with a tree that is not trusted, and a name
typed by the user decides which of them is asked for. The provider over a
directory turns a path into a place on the disk, and nothing else in a run ever
touches the disk.

What a run may learn of the disk is stated by comparing two of them. If they
agree below the root then no run can tell them apart, whatever is in the trees
and whatever is typed. So no file elsewhere has an influence on anything that is
shown. The places that a run opens can be listed as well, since they follow from
its requests; they are all below the root, and a path that is refused adds none.

## Main definitions

* `Session.opened`: The places on the disk that a run opens.

## Theorems

* `directory_congr`: An answer depends on the disk at one place only.
* `directory_of_not_allowed`: A path that is refused does not depend on the disk.
* `exchanges_directory_congr`: A run depends on the disk where it opens it.
* `disk_confined`: No run can tell disks apart that agree below the root.
-/

namespace StrataShell

namespace Content

variable {disk disk' : Disk} {root path : String}

/-- An answer depends on the disk at the place of the path, and not at all if it
    has none. -/
theorem directory_congr
    (h : ∀ place, contentPath root path = some place → disk' place = disk place) :
    directory disk' root path = directory disk root path := by
  unfold directory
  cases hplace : contentPath root path with
  | none => rfl
  | some place => exact congrArg (responseOfRead place path) (h place hplace)

theorem contentPath_eq_none (h : isAllowed path = false) : contentPath root path = none := by
  rw [← Option.isNone_iff_eq_none, ← Option.not_isSome, contentPath_isSome, h]
  rfl

theorem directory_of_not_allowed (h : isAllowed path = false) (disk : Disk) :
    directory disk root path = .ok { status := forbidden, path := path } := by
  rw [directory, contentPath_eq_none h]

end Content

namespace Session

variable {disk disk' : Disk} {root : String} {s : Session} {lines : List String}

/-- The places that a run with the provider over a directory opens, first one
    first: those of its requests that have one. -/
def opened (disk : Disk) (root : String) (s : Session) (lines : List String) : List String :=
  (s.asked (Content.directory disk root) lines).filterMap (Content.contentPath root)

theorem mem_opened_iff {place : String} :
    place ∈ s.opened disk root lines
      ↔ ∃ path ∈ s.asked (Content.directory disk root) lines,
        Content.contentPath root path = some place :=
  List.mem_filterMap

theorem inside_of_mem_opened {place : String} (h : place ∈ s.opened disk root lines) :
    Content.Inside root place := by
  rcases mem_opened_iff.mp h with ⟨path, _, hplace⟩
  exact Content.inside_of_contentPath hplace

-- What is opened follows from what is wanted, which no answer changes.
theorem opened_eq (disk disk' : Disk) (root : String) (s : Session) (lines : List String) :
    s.opened disk' root lines = s.opened disk root lines := by
  have hstages := stages_eq (some (Content.directory disk' root))
    (some (Content.directory disk root)) s lines
  rw [opened, opened, asked, asked, hstages]

/-- A run depends on the disk at the places that it opens. -/
theorem exchanges_directory_congr
    (h : ∀ place ∈ s.opened disk root lines, disk' place = disk place) :
    s.exchanges (some (Content.directory disk' root)) lines
      = s.exchanges (some (Content.directory disk root)) lines := by
  refine exchanges_congr (fun path hasked => ?_)
  refine Content.directory_congr (fun place hplace => ?_)
  exact h place (mem_opened_iff.mpr ⟨path, hasked, hplace⟩)

-- A line that wants a path that is refused opens nothing.
theorem opened_of_not_allowed {line path : String} (hwanted : s.wanted? line = some path)
    (hpath : Content.isAllowed path = false) : s.opened disk root [line] = [] := by
  have hasked : s.asked (Content.directory disk root) [line] = [path] := by
    rw [asked_cons, requests_exec, hwanted]
    rfl
  rw [opened, hasked, List.filterMap_cons, Content.contentPath_eq_none hpath]
  rfl

/-- Staying below the content root. Take any session, with any trees and deferred
    paths in them, and any lines. Two disks that agree at the places below the
    root, reached by one or more steps down, give the same results of all lines,
    and the same session after each of them. The places that a run opens are all
    among these, they are the same with every disk, and the run depends on the
    disk there and nowhere else. A path that is not allowed is answered with the
    status 403, whatever is on the disk; a line that asks for one opens nothing,
    and reports the status. -/
theorem disk_confined (root : String) (s : Session) (lines : List String) :
    (∀ disk disk' : Disk, (∀ place, Content.Inside root place → disk' place = disk place) →
      s.exchanges (some (Content.directory disk' root)) lines
          = s.exchanges (some (Content.directory disk root)) lines
        ∧ ∀ first, first <+: lines →
          s.after (some (Content.directory disk' root)) (first.map .line)
            = s.after (some (Content.directory disk root)) (first.map .line))
    ∧ (∀ disk disk' : Disk,
      (∀ place ∈ s.opened disk root lines, Content.Inside root place)
        ∧ s.opened disk' root lines = s.opened disk root lines
        ∧ ((∀ place ∈ s.opened disk root lines, disk' place = disk place) →
          s.exchanges (some (Content.directory disk' root)) lines
            = s.exchanges (some (Content.directory disk root)) lines))
    ∧ (∀ path, Content.isAllowed path = false →
      Content.contentPath root path = none
        ∧ ∀ disk, Content.directory disk root path = .ok { status := 403, path := path })
    ∧ (∀ (t : Session) (line path : String), t.wanted? line = some path →
      Content.isAllowed path = false → ∀ disk,
        t.opened disk root [line] = []
          ∧ (t.exec line).run (some (Content.directory disk root))
            = (.failure "Error fetching file: 403", t)) := by
  refine ⟨?confined, ?opened, ?refused, ?reported⟩
  case confined =>
    intro disk disk' hagree
    have hplaces : ∀ place ∈ s.opened disk root lines, disk' place = disk place :=
      fun place hplace => hagree place (inside_of_mem_opened hplace)
    exact ⟨exchanges_directory_congr hplaces, fun first _ => after_lines_eq _ _ s first⟩
  case opened =>
    intro disk disk'
    exact ⟨fun place => inside_of_mem_opened, opened_eq disk disk' root s lines,
      exchanges_directory_congr⟩
  case refused =>
    intro path hpath
    exact ⟨Content.contentPath_eq_none hpath, Content.directory_of_not_allowed hpath⟩
  case reported =>
    intro t line path hwanted hpath disk
    refine ⟨opened_of_not_allowed hwanted hpath, ?_⟩
    have hmessage : (Content.FetchError.status Content.forbidden).message
        = "Error fetching file: 403" := by decide +kernel
    rw [run_exec_of_wanted? hwanted, Content.fetchText, Content.directory_of_not_allowed hpath,
      ← hmessage]
    rfl

/-- A tree with a path that leads out of the root and one that does not. A file
    next to the root has no influence: the first path is forbidden, with the file
    there and without it, and the second is shown. -/
theorem disk_confined_neighbor :
    let here : Disk := fun place =>
      if place = "srv/note.txt" then .ok "a note" else .error .notFound
    let both : Disk := fun place =>
      if place = "other.txt" then .ok "another note" else here place
    let tree : Dir FileContent :=
      { files := [("out", .deferred "../other.txt"), ("in", .deferred "note.txt")] }
    let s : Session := { fileSystem := { permanentTree := tree } }
    let lines := ["cat out", "cat in"]
    (∀ place, Content.Inside "srv" place → both place = here place)
      ∧ both "other.txt" ≠ here "other.txt"
      ∧ s.exchanges (some (Content.directory both "srv")) lines
        = s.exchanges (some (Content.directory here "srv")) lines
      ∧ (s.exchanges (some (Content.directory here "srv")) lines).map (·.outcome)
        = [.failure "Error fetching file: 403", .success "a note"]
      ∧ s.opened here "srv" lines = ["srv/note.txt"] := by
  intro here both tree s lines
  have hagree : ∀ place, Content.Inside "srv" place → both place = here place := by
    rintro place ⟨names, _, _, hplace⟩
    refine if_neg (fun hother => ?_)
    rw [hother] at hplace
    have hchars := congrArg (fun text => text.toList.head?) hplace
    simp [Content.below] at hchars
  exact ⟨hagree, by decide, ((disk_confined "srv" s lines).1 here both hagree).1,
    by decide +kernel, by decide +kernel⟩

end Session

end StrataShell
