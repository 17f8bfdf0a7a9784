import StrataShell.Datum.Tree
import StrataShell.Json.Parser
import StrataShell.Json.Printer

/-!
# Trees in JSON

The exchange form of directory trees. Writing gives one text for each tree, in
the order of its entries. Reading takes every way to tell a tree in this
format, with the format's bound on nesting; it counts the records and lists
that are looked into, so what stands in a field that nobody asks for may be
nested as deeply as it likes.

A directory written as a list has its two parts and no more.

## Main definitions

* `readPermanent?`, `readLocal?`: The tree that a document tells.
* `readContent?`: The permanent content that a document tells.
* `writePermanent`, `writeLocal`: A tree as a document.
-/

namespace StrataShell

namespace Json

/-- The number of records and lists that may be nested. -/
def nestingLimit : Nat := 127

/-- The room for nesting in a document. -/
def room : Datum.Room := some nestingLimit

/-- How a permanent tree is read. -/
def permanentReading : Dir.Reading FileContent where
  file := FileContent.ofDatum?
  extraItems := false

/-- How a local tree is read. -/
def localReading : Dir.Reading String where
  file := Dir.textFile?
  extraItems := false

/-- The permanent tree that a document tells. -/
def readPermanent? (document : String) : Option (Dir FileContent) := do
  Dir.ofDatum? permanentReading room (← parse? document)

/-- The local tree that a document tells. -/
def readLocal? (document : String) : Option (Dir String) := do
  Dir.ofDatum? localReading room (← parse? document)

/-- The permanent content that a document tells. -/
def readContent? (document : String) : Option FileContent := do
  FileContent.ofDatum? room (← parse? document)

/-- A permanent tree as a document. -/
def writePermanent (tree : Dir FileContent) : String :=
  render (tree.toDatum FileContent.toDatum)

/-- A local tree as a document. -/
def writeLocal (tree : Dir String) : String :=
  render (tree.toDatum Datum.text)

end Json

end StrataShell
