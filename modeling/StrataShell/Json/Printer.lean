import StrataShell.Datum
import StrataShell.Json.Text

/-!
# Writing JSON

A value is written without any blanks, its fields in order. Text is quoted as
`Json.quote` says and a number is written as it was given.

A value read from a document may hold scalars that denote nothing. They have no
written form, and `render` writes nothing for them; values made by the program
have none.

## Main definitions

* `render`: A value as text.
-/

namespace StrataShell

namespace Json

mutual

/-- A value as characters. -/
def renderChars : Datum → List Char
  | .null => ['n', 'u', 'l', 'l']
  | .flag true => ['t', 'r', 'u', 'e']
  | .flag false => ['f', 'a', 'l', 's', 'e']
  | .number literal => literal.toList
  | .text value => quote value.toList
  | .unreadable => []
  | .list [] => ['[', ']']
  | .list (item :: rest) => '[' :: (renderChars item ++ renderItems rest)
  | .record [] => ['\x7b', '\x7d']
  | .record ((name, value) :: rest) =>
    '\x7b' :: (quote (name.getD "").toList ++ ':' :: (renderChars value ++ renderFields rest))

/-- The further values of a list, with the commas before them and the closing
    bracket. -/
def renderItems : List Datum → List Char
  | [] => [']']
  | item :: rest => ',' :: (renderChars item ++ renderItems rest)

/-- The further fields of a record, with the commas before them and the closing
    bracket. -/
def renderFields : List (Option String × Datum) → List Char
  | [] => ['\x7d']
  | (name, value) :: rest =>
    ',' :: (quote (name.getD "").toList ++ ':' :: (renderChars value ++ renderFields rest))

end

/-- A value as text. -/
def render (d : Datum) : String :=
  String.ofList (renderChars d)

end Json

end StrataShell
