import StrataShell.Path
import StrataShell.View

/-!
# The Layered File System

Two trees and a place in them. The permanent tree is read and never written.
The local tree starts empty, and the only thing that ever happens to it is that
an empty directory or an empty file is entered where the user stands. A place
may exist in either tree or in both, and the user walks through the two as if
they were one.

Creation needs the place to exist in the local tree. A directory that only the
permanent tree has can be visited, but nothing can be created in it, and the
attempt is refused rather than answered by copying the way to it.

## Main definitions

* `FileSystem`: Two trees and the current path.
* `FileSystem.Error`: Why an operation was refused.
* `view`: What is seen at a path.
* `mkdir`, `touch`: Enter a directory or a file at the current path.
* `cd`: Move into a directory or out of it.
* `ls`: The listing of the current path.
-/

namespace StrataShell

/-- Two trees and the current path. -/
structure FileSystem where
  /-- The tree that is only read. -/
  permanentTree : Dir FileContent
  /-- The tree that takes what the user creates. -/
  localTree : Dir String := {}
  cwd : String := Path.root

namespace FileSystem

/-- Why an operation of the file system was refused. -/
inductive Error
  /-- The named operation does not take this argument. -/
  | badCommand (operation : String)
  | directoryExists
  | fileExists
  /-- A permanent file of that name is there already. -/
  | permanentConflict
  /-- The root has no enclosing directory. -/
  | alreadyAtRoot
  | fileNotFound
  /-- The current path does not exist in the local tree. -/
  | localDirMissing
  deriving DecidableEq

/-- What the user is told of a refusal. -/
def Error.message : Error → String
  | .badCommand operation => "Bad command: " ++ operation
  | .directoryExists => "Directory already exists"
  | .fileExists => "File already exists"
  | .permanentConflict => "File already exists (permanent)"
  | .alreadyAtRoot => "Already at root"
  | .fileNotFound => "File not found"
  | .localDirMissing => "Current directory not found in localFS"

/-- Whether a name can be given to a new directory: ASCII letters and digits,
    at least one. -/
def isDirName (name : String) : Bool :=
  name ≠ "" && name.toList.all Char.isAlphanum

/-- Whether a name can be given to a new file: ASCII letters, digits and dots,
    at least one. -/
def isFileName (name : String) : Bool :=
  name ≠ "" && name.toList.all (fun c => c.isAlphanum || c == '.')

/-- The name that leads to the enclosing directory. -/
def up : String := ".."

/-- The permanent directory at a path. -/
def permanentAt (fs : FileSystem) (path : String) : Option (Dir FileContent) :=
  fs.permanentTree.resolve (Path.segments path)

/-- The local directory at a path. -/
def localAt (fs : FileSystem) (path : String) : Option (Dir String) :=
  fs.localTree.resolve (Path.segments path)

/-- What is seen at a path. -/
def view (fs : FileSystem) (path : String) : View :=
  View.ofLayers (fs.permanentAt path) (fs.localAt path)

/-- What is seen at the current path. -/
def here (fs : FileSystem) : View :=
  fs.view fs.cwd

/-- The listing of the current path. -/
def ls (fs : FileSystem) : String :=
  fs.here.listing

/-- Whether the current path has a directory of that name in either layer. -/
def hasDir (fs : FileSystem) (name : String) : Bool :=
  (fs.permanentAt fs.cwd).any (fun d => NameMap.contains name d.dirs)
    || (fs.localAt fs.cwd).any (fun d => NameMap.contains name d.dirs)

/-- Whether the current path has a permanent file of that name. -/
def hasPermanentFile (fs : FileSystem) (name : String) : Bool :=
  (fs.permanentAt fs.cwd).any (fun d => NameMap.contains name d.files)

/-- Change the local directory at the current path. -/
def modifyHere (fs : FileSystem) (f : Dir String → Dir String) : FileSystem :=
  { fs with localTree := fs.localTree.modifyAt f (Path.segments fs.cwd) }

/-- Enter an empty directory at the current path. -/
def mkdir (fs : FileSystem) (name : String) : Except Error FileSystem :=
  if !isDirName name then .error (.badCommand "mkdir")
  else if fs.hasDir name then .error .directoryExists
  else match fs.localAt fs.cwd with
    | none => .error .localDirMissing
    | some _ => .ok (fs.modifyHere (fun d => d.withDir name Dir.empty))

/-- Enter an empty file at the current path. -/
def touch (fs : FileSystem) (name : String) : Except Error FileSystem :=
  if !isFileName name then .error (.badCommand "touch")
  else if fs.hasPermanentFile name then .error .permanentConflict
  else match fs.localAt fs.cwd with
    | none => .error .localDirMissing
    | some d =>
      if NameMap.contains name d.files then .error .fileExists
      else .ok (fs.modifyHere (fun d => d.withFile name ""))

/-- Move into the directory of that name, or by `..` into the enclosing one. -/
def cd (fs : FileSystem) (name : String) : Except Error FileSystem :=
  if name = up then
    if Path.isRoot fs.cwd then .error .alreadyAtRoot
    else .ok { fs with cwd := Path.parent fs.cwd }
  else if fs.hasDir name then .ok { fs with cwd := Path.join fs.cwd name }
  else .error (.badCommand "cd")

end FileSystem

end StrataShell
