import StrataShell.Toml.Quoted

/-!
# Keys in TOML

A key is a bare word or a text quoted within its line. Keys joined by dots make
a path, with blanks allowed around each key. A path may not be longer than the
bound on nesting, since each of its keys but the last stands for a table.

## Main definitions

* `scanKey?`: The key at the start of a text.
* `scanPath?`: The path at the start of a text.
-/

namespace StrataShell

namespace Toml

/-- Whether a character may stand in a bare key. -/
def isBareChar (c : Char) : Bool :=
  c.isAlphanum || c == '_' || c == '-'

/-- The bound that nesting has to stay below. -/
def nestingLimit : Nat := 80

/-- The bare or quoted key at the start of a text, and what follows it. -/
def scanKey? (cs : List Char) : Option (String × List Char) :=
  match cs.takeWhile isBareChar with
  | [] => do
    let (key, rest) ← scanQuotedLine? cs
    some (String.ofList key, rest)
  | key => some (String.ofList key, cs.dropWhile isBareChar)

/-- The keys of a path up to a bound on their number, and what follows the
    blanks behind them. -/
def scanKeys? : Nat → List Char → Option (List String × List Char)
  | 0, _ => none
  | fuel + 1, cs => do
    let (key, rest) ← scanKey? (skipBlanks cs)
    match skipBlanks rest with
    | '.' :: rest => do
      let (keys, rest) ← scanKeys? fuel rest
      some (key :: keys, rest)
    | rest => some ([key], rest)

/-- The path at the start of a text: the keys before the last, the last, and
    what follows the blanks behind it. -/
def scanPath? (cs : List Char) : Option ((List String × String) × List Char) := do
  let (keys, rest) ← scanKeys? (nestingLimit - 1) cs
  let key ← keys.getLast?
  some ((keys.dropLast, key), rest)

end Toml

end StrataShell
