import StrataShell.Text.Fields

/-!
# Addresses of Deferred Contents

A deferred file names its content by a path relative to a content root. Such a
path comes out of a configuration document, so it is not trusted: it must not
lead out of the root, whatever the system that holds the contents takes for a
separator. `isAllowed` therefore reads both slashes as separators when it
looks for steps that stay or go up, and refuses a colon anywhere, which on some
systems names a volume.

An allowed path is placed below the root segment by segment, with the plain
slash as the only separator. The root is taken as it is, and a slash is written
only where one is missing.

## Main definitions

* `isAllowed`: Whether a path may be asked for.
* `push`: Place one name below a place.
* `contentPath`: The place of an allowed path below a root.

## Theorems

* `contentPath_isSome`: A path has a place exactly when it is allowed.
-/

namespace StrataShell

namespace Content

/-- The pieces of a path between separators of either kind. -/
def strictPieces (path : String) : List String :=
  (Text.pieces '/' path).flatMap (Text.fields '\\')

/-- Whether a piece of a path leads to an entry of the directory it is read
    in: it neither stays nor goes up, and it names no volume. -/
def isPlainPiece (piece : String) : Bool :=
  piece ≠ ".." && piece ≠ "." && !piece.toList.contains ':'

/-- Whether a path may be asked for: it is not empty, does not begin with a
    separator, and every piece of it is plain. -/
def isAllowed (path : String) : Bool :=
  match path.toList with
  | [] => false
  | c :: _ => c != '/' && c != '\\' && (strictPieces path).all isPlainPiece

/-- Place one name below a place. The place is taken as it is, and a slash is
    written only where one is missing. -/
def push (place name : String) : String :=
  if place = "" ∨ place.toList.getLast? = some '/' then place ++ name
  else place ++ "/" ++ name

/-- The place of an allowed path below a root. -/
def contentPath (root path : String) : Option String :=
  if isAllowed path then some ((Text.fields '/' path).foldl push root) else none

/-- A path has a place exactly when it is allowed. -/
theorem contentPath_isSome (root path : String) :
    (contentPath root path).isSome = isAllowed path := by
  unfold contentPath
  split
  · rename_i h
    rw [h]
    rfl
  · rename_i h
    rw [Bool.not_eq_true] at h
    rw [h]
    rfl

end Content

end StrataShell
