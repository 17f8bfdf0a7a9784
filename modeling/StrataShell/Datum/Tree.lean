import StrataShell.Datum
import StrataShell.View

/-!
# Trees as Data

How a directory tree is told in a data document. A directory is a record with
the fields `files` and `dirs`, each a record from names to contents or to
directories again. Either field may be missing, and other fields are not looked
at: they need not even denote anything. A directory may also be a list of those
two parts without their names.

A deferred content is a record with a text under `path`; an inline content, and
every local content, is a plain text. Here the whole record is read, so
everything in it has to denote something.

Within one record a name of a file or directory may be repeated: it keeps its
first place and takes its last value. A part of a directory, and the path of a
deferred content, may be given only once.

## Main definitions

* `Dir.toDatum`: A tree as data.
* `Dir.ofDatum?`: The tree that some data tells.
* `FileContent.ofDatum?`: The permanent content that some data tells.
* `Dir.textFile?`: The local content that some data tells.
-/

namespace StrataShell

namespace FileContent

/-- The field that holds the path of a deferred content. -/
def pathField : String := "path"

/-- A permanent content as data. -/
def toDatum : FileContent → Datum
  | .inlineText text => .text text
  | .deferred path => .record [(some pathField, .text path)]

/-- The values of the fields of a name. -/
def valuesOf (name : String) (fields : List (Option String × Datum)) : List Datum :=
  (fields.filter (fun field => field.1 = some name)).map Prod.snd

/-- The permanent content that some data tells. -/
def ofDatum? (room : Datum.Room) (d : Datum) : Option FileContent :=
  match d with
  | .text text => some (.inlineText text)
  | .record fields =>
    if Datum.isReadable room d then
      match valuesOf pathField fields with
      | [.text path] => some (.deferred path)
      | _ => none
    else none
  | _ => none

end FileContent

namespace Dir

variable {F : Type}

/-- The field that holds the files of a directory. -/
def filesField : String := "files"

/-- The field that holds the directories of a directory. -/
def dirsField : String := "dirs"

mutual

/-- A tree as data, with `file` for the contents. -/
def toDatum (file : F → Datum) : Dir F → Datum
  | ⟨files, dirs⟩ =>
    .record [(some filesField, .record (files.map (fun entry => (some entry.1, file entry.2)))),
      (some dirsField, .record (childFields file dirs))]

/-- The fields for the directories of a directory. -/
def childFields (file : F → Datum) : List (String × Dir F) → List (Option String × Datum)
  | [] => []
  | (name, child) :: rest => (some name, toDatum file child) :: childFields file rest

end

/-- The local content that some data tells: a plain text. -/
def textFile? (_ : Datum.Room) : Datum → Option String
  | .text text => some text
  | _ => none

/-- How a tree is read from data. -/
structure Reading (F : Type) where
  /-- The content that some data tells, with so much room for nesting. -/
  file : Datum.Room → Datum → Option F
  /-- Whether a directory written as a list may have more than its two
      parts. -/
  extraItems : Bool

/-- The files that the fields of a record tell, as a list of named contents. -/
def fileEntries? (reading : Reading F) (room : Datum.Room) :
    List (Option String × Datum) → Option (List (String × F))
  | [] => some []
  | (name, value) :: rest => do
    let name ← name
    let content ← reading.file room value
    let entries ← fileEntries? reading room rest
    some ((name, content) :: entries)

/-- The files that some data tells. -/
def files? (reading : Reading F) (room : Datum.Room) : Datum → Option (NameMap F)
  | .record fields => do
    let inner ← Datum.Room.inside? room
    let entries ← fileEntries? reading inner fields
    some (NameMap.ofList entries)
  | _ => none

/-- The two parts of a directory, each as far as it was given. -/
abbrev Parts (F : Type) := Option (NameMap F) × Option (NameMap (Dir F))

/-- The directory with some parts. -/
def ofParts (parts : Parts F) : Dir F :=
  { files := parts.1.getD [], dirs := parts.2.getD [] }

mutual

/-- The tree that some data tells. -/
def ofDatum? (reading : Reading F) (room : Datum.Room) : Datum → Option (Dir F)
  | .record fields => do
    let inner ← Datum.Room.inside? room
    let parts ← partsOfFields? reading inner fields
    some (ofParts parts)
  | .list items => do
    let inner ← Datum.Room.inside? room
    let parts ← partsOfItems? reading inner items
    some (ofParts parts)
  | _ => none

/-- The parts of a directory written as a record. -/
def partsOfFields? (reading : Reading F) (room : Datum.Room) :
    List (Option String × Datum) → Option (Parts F)
  | [] => some (none, none)
  | (name, value) :: rest => do
    let name ← name
    let parts ← partsOfFields? reading room rest
    if name = filesField then
      if parts.1.isSome then none
      else do
        let files ← files? reading room value
        some (some files, parts.2)
    else if name = dirsField then
      if parts.2.isSome then none
      else do
        let dirs ← dirs? reading room value
        some (parts.1, some dirs)
    else some parts

/-- The parts of a directory written as a list. -/
def partsOfItems? (reading : Reading F) (room : Datum.Room) : List Datum → Option (Parts F)
  | [] => some (none, none)
  | [first] => do
    let files ← files? reading room first
    some (some files, none)
  | first :: second :: rest => do
    let files ← files? reading room first
    let dirs ← dirs? reading room second
    if rest.isEmpty || reading.extraItems then some (some files, some dirs) else none

/-- The directories that some data tells. -/
def dirs? (reading : Reading F) (room : Datum.Room) : Datum → Option (NameMap (Dir F))
  | .record fields => do
    let inner ← Datum.Room.inside? room
    let entries ← dirEntries? reading inner fields
    some (NameMap.ofList entries)
  | _ => none

/-- The directories that the fields of a record tell, as a list of named
    trees. -/
def dirEntries? (reading : Reading F) (room : Datum.Room) :
    List (Option String × Datum) → Option (List (String × Dir F))
  | [] => some []
  | (name, value) :: rest => do
    let name ← name
    let child ← ofDatum? reading room value
    let entries ← dirEntries? reading room rest
    some ((name, child) :: entries)

end

end Dir

end StrataShell
