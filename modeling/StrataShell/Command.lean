import StrataShell.Content.Provider
import StrataShell.FileSystem

/-!
# Commands

The commands of the shell, by what can be said of them without running one: the
name that calls it, the number of arguments it takes, and its line in the help
text.

Names are matched exactly. A command that takes any number of arguments simply
ignores them, so only the counts of the others are ever checked.

## Main definitions

* `Command`: A command of the shell.
* `Command.ofName?`: The command that a name calls.
* `Arity`: How many arguments a command takes.
* `Command.Error`: Why a command failed.
* `Command.helpText`: The list of the commands with their use.

## Theorems

* `ofName?_name`: Every command is called by its name.
-/

namespace StrataShell

/-- A command of the shell. -/
inductive Command
  | help
  | quit
  | clear
  | set
  | print
  | echo
  | ls
  | mkdir
  | touch
  | cd
  | cat
  | source
  | run
  deriving DecidableEq

/-- How many arguments a command takes. -/
inductive Arity
  | exactly (count : Nat)
  | atLeast (count : Nat)
  | any
  deriving DecidableEq

/-- Whether a number of arguments is right. -/
def Arity.accepts : Arity → Nat → Bool
  | .exactly n, count => count == n
  | .atLeast n, count => n ≤ count
  | .any, _ => true

namespace Command

/-- The commands, in the order of the help text. -/
def all : List Command :=
  [.help, .quit, .clear, .set, .print, .echo, .ls, .mkdir, .touch, .cd, .cat, .source, .run]

/-- The name that calls a command. -/
def name : Command → String
  | .help => "help"
  | .quit => "quit"
  | .clear => "clear"
  | .set => "set"
  | .print => "print"
  | .echo => "echo"
  | .ls => "ls"
  | .mkdir => "mkdir"
  | .touch => "touch"
  | .cd => "cd"
  | .cat => "cat"
  | .source => "source"
  | .run => "run"

/-- The command that a name calls. -/
def ofName? (name : String) : Option Command :=
  all.find? (fun command => command.name = name)

/-- How many arguments a command takes. -/
def arity : Command → Arity
  | .set => .atLeast 2
  | .echo => .atLeast 1
  | .print | .mkdir | .touch | .cd | .cat => .exactly 1
  | .help | .quit | .clear | .ls | .source | .run => .any

/-- How a command is called and what it does, as far as the help text tells. -/
def usage? : Command → Option (String × String)
  | .help => some ("help", "Displays all the commands")
  | .quit => some ("quit", "Exits the shell (refresh the page to restart)")
  | .clear => some ("clear", "Clears the terminal output")
  | .set => some ("set VAR STRING", "Sets a variable in shell memory")
  | .print => some ("print VAR", "Displays the variable's value")
  | .echo => some ("echo STRING", "Echoes input (supports $VAR substitution)")
  | .ls => some ("ls", "Lists files/directories in current folder")
  | .mkdir => some ("mkdir DIR", "Creates a new directory (local only)")
  | .touch => some ("touch FILE", "Creates a new file (local only)")
  | .cd => some ("cd DIR", "Changes directory (supports \"..\" to go back)")
  | .cat => some ("cat FILE", "Displays the contents of a file")
  | .source | .run => none

/-- The column in which the descriptions of the help text begin. -/
def usageWidth : Nat := 16

/-- A text filled up with spaces to a width. -/
def padRight (width : Nat) (text : String) : String :=
  text ++ String.ofList (List.replicate (width - text.length) ' ')

/-- The list of the commands with their use. -/
def helpText : String :=
  "Available commands:\n" ++ String.join ((all.filterMap usage?).map
    (fun usage => padRight usageWidth usage.1 ++ usage.2 ++ "\n"))

/-- Why a command failed. -/
inductive Error
  /-- The file system refused. -/
  | fileSystem (cause : FileSystem.Error)
  /-- A deferred content did not come. -/
  | content (cause : Content.FetchError)
  | unknown (name : String)
  /-- The command does not take that many arguments. -/
  | arity
  | variableNotFound
  deriving DecidableEq

/-- What the user is told of a failure. -/
def Error.message : Error → String
  | .fileSystem cause => cause.message
  | .content cause => cause.message
  | .unknown name => "Unknown command: " ++ name
  | .arity => "Unknown command"
  | .variableNotFound => "Variable does not exist"

/-- Every command is called by its name. -/
theorem ofName?_name (command : Command) : ofName? command.name = some command := by
  cases command <;> decide

end Command

end StrataShell
