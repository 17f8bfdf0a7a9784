import StrataShell.Dir

/-!
# The Combined View of Two Layers

What a user sees at one place: the entries of the permanent directory there,
followed by those that only the local directory has. An entry of both layers
is shown once, in the permanent place but with the local content, since the
local layer lies on top.

Either directory may be missing. A view of two missing directories is empty,
which is also how a path that leads nowhere looks.

## Main definitions

* `FileContent`: What the permanent layer knows of a file.
* `Layer`: Where an entry comes from.
* `FileRef`: A file of a view, with its layer and content.
* `View`: The directories and files seen at one place.
* `View.ofLayers`: Lay a local directory over a permanent one.
* `View.listing`: The view as text.
-/

namespace StrataShell

/-- What the permanent layer knows of a file: its text, or only the path under
    which the text can be fetched. -/
inductive FileContent
  | inlineText (text : String)
  | deferred (path : String)
  deriving DecidableEq

/-- The layer an entry comes from. -/
inductive Layer
  | permanentLayer
  | localLayer
  deriving DecidableEq

/-- A file as a view shows it. -/
inductive FileRef
  | permanentFile (content : FileContent)
  | localFile (text : String)
  deriving DecidableEq

/-- The directories and the files seen at one place, in order. -/
structure View where
  /-- The directories, with the layer that shows each. -/
  dirs : NameMap Layer
  files : NameMap FileRef
  deriving DecidableEq

namespace View

/-- Every directory of a layer, marked with that layer. -/
def dirEntries {F : Type} (layer : Layer) (d : Option (Dir F)) : List (String × Layer) :=
  match d with
  | none => []
  | some d => d.dirs.map (fun entry => (entry.1, layer))

/-- Every file of a layer, shown as `ref` says. -/
def fileEntries {F : Type} (ref : F → FileRef) (d : Option (Dir F)) : List (String × FileRef) :=
  match d with
  | none => []
  | some d => d.files.map (fun entry => (entry.1, ref entry.2))

/-- Lay a local directory over a permanent one. The permanent entries are
    entered first, so a name of both layers keeps its permanent place and takes
    its local content. -/
def ofLayers (permanentDir : Option (Dir FileContent)) (localDir : Option (Dir String)) : View where
  dirs := NameMap.ofList
    (dirEntries .permanentLayer permanentDir ++ dirEntries .localLayer localDir)
  files := NameMap.ofList
    (fileEntries .permanentFile permanentDir ++ fileEntries .localFile localDir)

/-- Whether a view shows nothing. -/
def isEmpty (v : View) : Bool :=
  v.dirs.isEmpty && v.files.isEmpty

/-- What a listing says of a view without entries. -/
def emptyListing : String := "Directory is empty"

/-- The view as text, one entry a line: the directories, marked by a trailing
    separator, and then the files. -/
def listing (v : View) : String :=
  if v.isEmpty then emptyListing
  else String.intercalate "\n"
    ((NameMap.names v.dirs).map (fun name => name ++ "/") ++ NameMap.names v.files)

/-- No directory is shown twice. -/
theorem distinct_dirs (p : Option (Dir FileContent)) (l : Option (Dir String)) :
    NameMap.Distinct (ofLayers p l).dirs :=
  NameMap.distinct_ofList _

/-- No file is shown twice. -/
theorem distinct_files (p : Option (Dir FileContent)) (l : Option (Dir String)) :
    NameMap.Distinct (ofLayers p l).files :=
  NameMap.distinct_ofList _

end View

end StrataShell
