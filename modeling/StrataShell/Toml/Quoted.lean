import StrataShell.Text.Digits
import StrataShell.Toml.Layout

/-!
# Quoted Text in TOML

Text is quoted in four ways. Double marks allow escapes and single marks none;
one mark at each end keeps the text within its line, three let it run over
several.

In text over several lines every line end is read as a plain line feed, and a
line end directly behind the opening marks does not count. A backslash at the
end of a line joins it to the next character that is neither blank nor a line
end. Up to two marks may stand anywhere inside, even before the closing marks,
so a run of marks closes the text when it has three to five of them, the first
ones being content.

## Main definitions

* `escape?`: The character that an escape stands for.
* `scanLine?`: The rest of a text within one line.
* `scanLines?`: The rest of a text over several lines.
* `scanQuoted?`: The quoted text at the start of a text.
-/

namespace StrataShell

namespace Toml

/-- The character of a code point, unless it is half of a surrogate pair or
    too large. -/
def charOf? (n : Nat) : Option Char :=
  if n.isValidChar then some (Char.ofNat n) else none

/-- The character that `count` digits of base sixteen name, and what follows
    them. -/
def scanCodePoint? (count : Nat) (cs : List Char) : Option (Char × List Char) := do
  let n ← Text.numberIn? 16 (cs.take count)
  if (cs.take count).length = count then
    let c ← charOf? n
    some (c, cs.drop count)
  else none

/-- The character that an escape stands for, its backslash having been passed,
    and what follows the escape. -/
def escape? (cs : List Char) : Option (Char × List Char) :=
  match cs with
  | 'b' :: rest => some ('\x08', rest)
  | 't' :: rest => some ('\t', rest)
  | 'n' :: rest => some ('\n', rest)
  | 'f' :: rest => some ('\x0c', rest)
  | 'r' :: rest => some ('\r', rest)
  | '"' :: rest => some ('"', rest)
  | '\\' :: rest => some ('\\', rest)
  | 'u' :: rest => scanCodePoint? 4 rest
  | 'U' :: rest => scanCodePoint? 8 rest
  | _ => none

/-- Whether a character may stand in quoted text as itself: the tab and
    everything that is not a control character. -/
def isPlain (c : Char) : Bool :=
  isCommentChar c

/-- The kind of a quotation mark. -/
structure Quote where
  mark : Char
  /-- Whether a backslash begins an escape. -/
  escapes : Bool

/-- Double marks, which allow escapes. -/
def Quote.basic : Quote := { mark := '"', escapes := true }

/-- Single marks, which allow none. -/
def Quote.literal : Quote := { mark := '\'', escapes := false }

/-- The rest of a text within one line, and what follows its closing mark. -/
def scanLine? (q : Quote) : Nat → List Char → Option (List Char × List Char)
  | 0, _ => none
  | _, [] => none
  | fuel + 1, c :: rest =>
    if c = q.mark then some ([], rest)
    else if c = '\\' ∧ q.escapes then do
      let (c, rest) ← escape? rest
      let (text, rest) ← scanLine? q fuel rest
      some (c :: text, rest)
    else if isPlain c then do
      let (text, rest) ← scanLine? q fuel rest
      some (c :: text, rest)
    else none

/-- The text behind a line end that a backslash hides, with all the blanks and
    line ends around it. -/
def skipHidden? (cs : List Char) : Option (List Char) := do
  let rest ← newline? (skipBlanks cs)
  some (skipBlankLines (rest.length + 1) rest)
where
  /-- The text behind blanks and line ends. -/
  skipBlankLines : Nat → List Char → List Char
    | 0, cs => cs
    | fuel + 1, cs =>
      match newline? (skipBlanks cs) with
      | some rest => skipBlankLines fuel rest
      | none => skipBlanks cs

/-- The marks of a run that belong to the text when the run closes it. -/
def closingContent? (run : Nat) : Option Nat :=
  if 3 ≤ run ∧ run ≤ 5 then some (run - 3) else none

/-- The rest of a text over several lines, and what follows its closing
    marks. -/
def scanLines? (q : Quote) : Nat → List Char → Option (List Char × List Char)
  | 0, _ => none
  | _, [] => none
  | fuel + 1, c :: rest =>
    if c = q.mark then
      let run := 1 + (rest.takeWhile (· == q.mark)).length
      let behind := rest.dropWhile (· == q.mark)
      if run < 3 then do
        let (text, rest) ← scanLines? q fuel behind
        some (List.replicate run q.mark ++ text, rest)
      else do
        let content ← closingContent? run
        some (List.replicate content q.mark, behind)
    else match newline? (c :: rest) with
      | some rest => do
        let (text, rest) ← scanLines? q fuel rest
        some ('\n' :: text, rest)
      | none =>
        if c = '\\' ∧ q.escapes then
          match skipHidden? rest with
          | some rest => scanLines? q fuel rest
          | none => do
            let (c, rest) ← escape? rest
            let (text, rest) ← scanLines? q fuel rest
            some (c :: text, rest)
        else if isPlain c then do
          let (text, rest) ← scanLines? q fuel rest
          some (c :: text, rest)
        else none

/-- The kind of quotation that a mark opens. -/
def quoteOf? (c : Char) : Option Quote :=
  if c = '"' then some .basic else if c = '\'' then some .literal else none

/-- The quoted text at the start of a text if it keeps within its line, and
    what follows it. -/
def scanQuotedLine? (cs : List Char) : Option (List Char × List Char) :=
  match cs with
  | [] => none
  | c :: rest => do
    let q ← quoteOf? c
    scanLine? q (rest.length + 1) rest

/-- The quoted text at the start of a text, and what follows it. Three marks
    open a text over several lines. -/
def scanQuoted? (cs : List Char) : Option (List Char × List Char) :=
  match cs with
  | a :: b :: c :: rest =>
    if a = b ∧ b = c then do
      let q ← quoteOf? a
      let body := (newline? rest).getD rest
      scanLines? q (body.length + 1) body
    else scanQuotedLine? cs
  | _ => scanQuotedLine? cs

end Toml

end StrataShell
