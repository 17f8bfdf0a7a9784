import StrataShell.NameMap

/-!
# Shell Variables

Named texts that live as long as the session. A name has the value it was last
given, an empty value being a value like any other.

`expand` is what `echo` prints. Only a word that begins with the sigil names a
variable, the whole rest of it being the name, and what a variable holds is
printed as it is: a value that looks like a variable is not looked up again.

## Main definitions

* `Variables`: The values by name.
* `expand`: Words with the variables among them replaced.
-/

namespace StrataShell

/-- The values of the variables by name. -/
abbrev Variables := NameMap String

namespace Variables

/-- The character that marks a word as a variable. -/
def sigil : Char := '$'

/-- The name of the variable that a word stands for, if it stands for one. -/
def nameOf? (word : String) : Option String :=
  match word.toList with
  | [] => none
  | c :: rest => if c = sigil then some (String.ofList rest) else none

/-- What a word is printed as: the value of the variable it stands for, which
    is empty if the variable is not set, and else the word itself. -/
def expandWord (vars : Variables) (word : String) : String :=
  match nameOf? word with
  | some name => (NameMap.get? name vars).getD ""
  | none => word

/-- What some words are printed as, with one space between them. -/
def expand (vars : Variables) (words : List String) : String :=
  String.intercalate " " (words.map (expandWord vars))

end Variables

end StrataShell
