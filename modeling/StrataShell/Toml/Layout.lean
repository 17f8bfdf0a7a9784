/-!
# Blanks, Line Ends and Comments in TOML

The format is one of lines. Inside a line the space and the tab are blank; a
line ends with a line feed, with or without a carriage return before it, and a
carriage return anywhere else is a fault. A comment runs from its mark to the
end of the line and may hold any character but the control characters.

Arrays are the exception to the lines: between their values line ends and
comments count as blank too, and `skipFiller` passes over all of them.

## Main definitions

* `skipBlanks`: The text behind leading spaces and tabs.
* `newline?`: The text behind a line end.
* `lineEnd?`: The text behind the rest of a line that says nothing more.
* `skipFiller`: The text behind everything that separates nothing.
-/

namespace StrataShell

namespace Toml

/-- Whether a character is blank inside a line. -/
def isBlank (c : Char) : Bool :=
  c == ' ' || c == '\t'

/-- Whether a character may stand in a comment: the tab and everything that is
    not a control character. -/
def isCommentChar (c : Char) : Bool :=
  c == '\t' || (0x20 ≤ c.toNat && c.toNat != 0x7F)

/-- The text behind leading spaces and tabs. -/
def skipBlanks (cs : List Char) : List Char :=
  cs.dropWhile isBlank

/-- The text behind a comment, if there is one. -/
def skipComment (cs : List Char) : List Char :=
  match cs with
  | '#' :: rest => rest.dropWhile isCommentChar
  | _ => cs

/-- The text behind a line end, if there is one. -/
def newline? (cs : List Char) : Option (List Char) :=
  match cs with
  | '\n' :: rest => some rest
  | '\r' :: '\n' :: rest => some rest
  | _ => none

/-- The text behind the rest of a line that says nothing more: blanks, perhaps
    a comment, and the end of the line or of the text. -/
def lineEnd? (cs : List Char) : Option (List Char) :=
  match skipComment (skipBlanks cs) with
  | [] => some []
  | rest => newline? rest

/-- The text behind blanks, line ends and comments, each comment with the end
    of its line. -/
def skipFillerWithin : Nat → List Char → List Char
  | 0, cs => cs
  | fuel + 1, cs =>
    let rest := skipBlanks cs
    match newline? (skipComment rest) with
    | some rest => skipFillerWithin fuel rest
    | none => rest

/-- The text behind blanks, line ends and comments. Each pass takes a line end
    away, so the length of the text bounds their number. -/
def skipFiller (cs : List Char) : List Char :=
  skipFillerWithin (cs.length + 1) cs

end Toml

end StrataShell
