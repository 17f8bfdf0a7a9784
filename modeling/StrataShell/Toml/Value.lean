import StrataShell.Toml.Calendar
import StrataShell.Toml.Key
import StrataShell.Toml.Number
import StrataShell.Toml.Table

/-!
# Values in TOML

A value is a text, a number, a truth value, a moment, an array or an inline
table. Arrays may be spread over lines and may end with a comma; inline tables
may do neither. The keys of an inline table obey the rules for keys in a table,
and once it is closed nothing can be added to it.

A moment is handed on as a record of one field, whose name no document would
choose by accident. Whoever asks for text there is refused, and whoever asks
for a record finds that field.

Nesting is bounded. The functions below are given the room that is left and,
besides, fuel for their own steps, of which the length of the text supplies
enough.

## Main definitions

* `momentField`: The name of the field that holds a moment.
* `value?`: The value at the start of a text.
-/

namespace StrataShell

namespace Toml

/-- The name of the field that holds a moment. -/
def momentField : String := "$__toml_private_datetime"

/-- A moment as a value. -/
def momentDatum (text : String) : Datum :=
  .record [(some momentField, .text text)]

/-- The characters of a number as a value. -/
def numberDatum (cs rest : List Char) : Datum :=
  .number (String.ofList (cs.take (cs.length - rest.length)))

/-- The text, truth value, moment or number at the start of a text, and what
    follows it. -/
def scalar? (cs : List Char) : Option (Datum × List Char) :=
  match cs with
  | 't' :: 'r' :: 'u' :: 'e' :: rest => some (.flag true, rest)
  | 'f' :: 'a' :: 'l' :: 's' :: 'e' :: rest => some (.flag false, rest)
  | c :: _ =>
    if (quoteOf? c).isSome then do
      let (text, rest) ← scanQuoted? cs
      some (.text (String.ofList text), rest)
    else if isMoment cs then do
      let (text, rest) ← scanMoment? cs
      some (momentDatum text, rest)
    else do
      let rest ← scanNumber? cs
      some (numberDatum cs rest, rest)
  | [] => none

mutual

/-- The value at the start of a text, with `room` for the lists and tables
    around and inside it, and what follows it. -/
def value? (room : Nat) : Nat → List Char → Option (Datum × List Char)
  | 0, _ => none
  | fuel + 1, cs =>
    match cs with
    | '[' :: rest =>
      match room with
      | 0 => none
      | inner + 1 => do
        let (items, rest) ← items? inner fuel (skipFiller rest)
        some (.list items, rest)
    | '\x7b' :: rest =>
      match room with
      | 0 => none
      | inner + 1 =>
        match skipBlanks rest with
        | '\x7d' :: rest => some (.record [], rest)
        | rest => do
          let (pairs, rest) ← pairs? inner fuel rest
          let entries ← assignAll? pairs .header []
          some (.record (fieldsOf entries), rest)
    | _ => scalar? cs

/-- The values of an array up to its closing bracket, and what follows it. The
    filler before the first has been passed. -/
def items? (room : Nat) : Nat → List Char → Option (List Datum × List Char)
  | 0, _ => none
  | fuel + 1, cs =>
    match cs with
    | ']' :: rest => some ([], rest)
    | _ => do
      let (item, rest) ← value? room fuel cs
      match skipFiller rest with
      | ',' :: rest => do
        let (items, rest) ← items? room fuel (skipFiller rest)
        some (item :: items, rest)
      | ']' :: rest => some ([item], rest)
      | _ => none

/-- The keys and values of an inline table up to its closing brace, and what
    follows it. -/
def pairs? (room : Nat) : Nat → List Char → Option (List Assignment × List Char)
  | 0, _ => none
  | fuel + 1, cs => do
    let ((path, key), rest) ← scanPath? cs
    match rest with
    | '=' :: rest => do
      let (value, rest) ← value? room fuel (skipBlanks rest)
      let pair : Assignment := { path := path, key := key, value := value }
      match skipBlanks rest with
      | ',' :: rest => do
        let (pairs, rest) ← pairs? room fuel rest
        some (pair :: pairs, rest)
      | '\x7d' :: rest => some ([pair], rest)
      | _ => none
    | _ => none

end

end Toml

end StrataShell
