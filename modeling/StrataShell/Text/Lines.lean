/-!
# Lines of a Byte Stream

Piped input arrives as bytes and is read line by line. A line ends at a line
feed; one carriage return before that feed belongs to the ending and is dropped
with it. The last line may lack its ending, and then a carriage return at its
end is part of the line.

A line that is not valid UTF-8 ends the reading: it and everything after it are
never seen. `textLines` is therefore the longest run of readable lines at the
start of the stream.

## Main definitions

* `rawLines`: The lines as bytes, each without its ending.
* `textLines`: The readable lines before the first unreadable one.
-/

namespace StrataShell

namespace Text

/-- The line feed, which ends a line. -/
def lineFeed : UInt8 := 10

/-- The carriage return, which may stand before a line feed. -/
def carriageReturn : UInt8 := 13

/-- Drop one carriage return from the end of a finished line. -/
def dropReturn (line : List UInt8) : List UInt8 :=
  if line.getLast? = some carriageReturn then line.dropLast else line

/-- The lines of a byte stream, each without its ending. Only a line that a
    line feed ended loses a carriage return, and a stream that ends with a line
    feed has no further, empty line. -/
def rawLines (bytes : List UInt8) : List (List UInt8) :=
  match (bytes.splitOn lineFeed).reverse with
  | [] => []
  | last :: finished =>
    (finished.map dropReturn).reverse ++ (if last = [] then [] else [last])

/-- The text that some bytes encode in UTF-8, if they do. -/
def ofBytes? (bytes : List UInt8) : Option String :=
  String.fromUTF8? ⟨bytes.toArray⟩

/-- The longest initial run of values, stopping before the first absent one. -/
def leadingSome {α : Type} : List (Option α) → List α
  | some a :: rest => a :: leadingSome rest
  | _ => []

/-- The readable lines before the first unreadable one. -/
def textLines (bytes : List UInt8) : List String :=
  leadingSome ((rawLines bytes).map ofBytes?)

end Text

end StrataShell
