import StrataShell.Dir
import StrataShell.Text.Fields
import StrataShell.Disk
import StrataShell.Text.Lines

/-!
# A Disk Held as a Tree

A disk whose contents are known: a tree of directories with the bytes of each
file. Reading a path from it follows the rules of a hierarchical file system.
A path is followed piece by piece, so going up undoes the last step down, and
a step through something that is not there fails even if a later piece goes up
again. Behind a file nothing may follow, not even a separator.

The tree stands for one working directory. Of what lies outside it nothing is
known but the directories themselves: an absolute path, or one that goes up too
far, finds no entry there.

## Main definitions

* `Disk.Snapshot`: A tree of files with their bytes.
* `Disk.Snapshot.ofEntries`: The tree that a list of files makes.
* `Disk.Snapshot.disk`: What reading from the tree answers.
-/

namespace StrataShell

namespace Disk

/-- A tree of files with their bytes. -/
abbrev Snapshot := Dir (List UInt8)

namespace Snapshot

/-- The number of bytes a name may have. -/
def maxNameBytes : Nat := 255

/-- The number of bytes a path must stay below. -/
def pathBytesLimit : Nat := 4096

/-- Follow the pieces of a path. The stack holds the directories walked
    through, the innermost first, and is empty outside the tree. -/
def walk (stack : List Snapshot) : List String → Except ReadError (List UInt8)
  | [] => .error .isDirectory
  | piece :: rest =>
    if piece = "" ∨ piece = "." then walk stack rest
    else if piece = ".." then walk stack.tail rest
    else if piece.utf8ByteSize > maxNameBytes then .error .nameTooLong
    else match stack with
      | [] => .error .notFound
      | here :: _ =>
        match NameMap.get? piece here.dirs with
        | some child => walk (child :: stack) rest
        | none =>
          match NameMap.get? piece here.files with
          | none => .error .notFound
          | some bytes => if rest = [] then .ok bytes else .error .notDirectory

/-- The bytes of the file at a path. -/
def readBytes (tree : Snapshot) (path : String) : Except ReadError (List UInt8) :=
  if path.toList.contains '\x00' then .error .nulInPath
  else if path = "" then .error .notFound
  else if path.utf8ByteSize ≥ pathBytesLimit then .error .nameTooLong
  else walk (if path.toList.head? = some '/' then [] else [tree]) (Text.pieces '/' path)

/-- What reading from a tree answers. -/
def disk (tree : Snapshot) : Disk := fun path =>
  match readBytes tree path with
  | .error cause => .error cause
  | .ok bytes =>
    match Text.ofBytes? bytes with
    | none => .error .notText
    | some text => .ok text

/-- The tree with a directory at the end of a list of names, and everything on
    the way to it. -/
def makeDirs : List String → Snapshot → Snapshot
  | [], tree => tree
  | name :: rest, tree =>
    tree.withDir name (makeDirs rest ((NameMap.get? name tree.dirs).getD {}))

/-- The tree with an entry at a path: a file where there are bytes, else a
    directory. The directories on the way to it are made. -/
def write (tree : Snapshot) (path : String) (bytes : Option (List UInt8)) : Snapshot :=
  let names := (Text.fields '/' path).filter (fun name => name ≠ ".")
  match bytes, names.getLast? with
  | some bytes, some name =>
    (makeDirs names.dropLast tree).modifyAt (fun d => d.withFile name bytes) names.dropLast
  | _, _ => makeDirs names tree

/-- The tree that a list of files makes, written one after another. -/
def ofEntries (entries : List (String × Option (List UInt8))) : Snapshot :=
  entries.foldl (fun tree entry => tree.write entry.1 entry.2) {}

end Snapshot

end Disk

end StrataShell
