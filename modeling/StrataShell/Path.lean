import StrataShell.Text.Fields

/-!
# Paths as Text

The current place in the tree is kept as text, and the text is what the user
sees. Walking needs the names in it, so a path is cut into its segments each
time it is followed.

Cutting forgets: `/a`, `a/` and `//a` have the same segments. `ofSegments`
gives back one text for each list of segments, the canonical one, and `parent`
always answers with such a text. `join` does not look into either argument: it
writes the name behind the path, so a name that contains the separator adds
more than one segment, and an empty one adds none.

## Main definitions

* `segments`: The names in a path.
* `ofSegments`: The canonical path of a list of names.
* `join`: The path of an entry inside a directory.
* `parent`: The path of the enclosing directory.
* `isRoot`: Whether a path names no segment.

## Theorems

* `isRoot_iff`: A path is the root exactly when it has no segments.
-/

namespace StrataShell

namespace Path

/-- The character between the names of a path. -/
def separator : Char := '/'

/-- The path of the outermost directory. -/
def root : String := "/"

/-- The names in a path, in order. Empty names do not count. -/
def segments (path : String) : List String :=
  Text.fields separator path

/-- The canonical path of a list of names: each name behind one separator, and
    the root for no names. -/
def ofSegments (names : List String) : String :=
  "/" ++ String.intercalate "/" names

/-- The path of an entry inside a directory. -/
def join (base name : String) : String :=
  if base = root then "/" ++ name else base ++ "/" ++ name

/-- The path of the enclosing directory; the root encloses itself. -/
def parent (path : String) : String :=
  ofSegments (segments path).dropLast

/-- Whether a path names no segment. -/
def isRoot (path : String) : Bool :=
  (segments path).isEmpty

/-- A path is the root exactly when it has no segments. -/
theorem isRoot_iff {path : String} : isRoot path = true ↔ segments path = [] :=
  List.isEmpty_iff

end Path

end StrataShell
