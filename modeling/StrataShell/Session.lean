import StrataShell.Command
import StrataShell.Outcome
import StrataShell.Step
import StrataShell.Variables

/-!
# Sessions

A session is the file system as the user has walked it and the variables the
user has set. One line of input is cut into words at the plain space; the first
word names a command and the others are its arguments.

A line does one of three things. It fails, and then the session is as before.
It answers, and then too. Or it changes one part of the session and answers
with nothing. Only `cat` can need a content from outside, and whatever comes of
that is shown and forgotten, so no answer from outside ever changes a session.

## Main definitions

* `Session`: File system and variables.
* `tokenize`: The words of a line.
* `fileText`: The text of a file at the current path.
* `perform`: Run a command with its arguments.
* `exec`: Run a line.
-/

namespace StrataShell

/-- The state of a shell between two lines. -/
structure Session where
  fileSystem : FileSystem
  vars : Variables := []

namespace Session

/-- The words of a line: what stands between its spaces. No other character
    separates words. -/
def tokenize (line : String) : List String :=
  Text.fields ' ' line

/-- The text of a file at the current path. What the local layer has, and what
    the permanent layer has in full, is there at once; the rest is asked for. -/
def fileText (s : Session) (name : String) : Step (Except Command.Error String) :=
  match NameMap.get? name s.fileSystem.here.files with
  | none => .done (.error (.fileSystem .fileNotFound))
  | some (.localFile text) => .done (.ok text)
  | some (.permanentFile (.inlineText text)) => .done (.ok text)
  | some (.permanentFile (.deferred path)) => .fetch path (fun reply => reply.mapError .content)

/-- The outcome of a failed command. -/
def failed (cause : Command.Error) : Outcome :=
  .failure cause.message

/-- The outcome of a command that shows a text, if it has one. -/
def shown : Except Command.Error String → Outcome
  | .ok text => .success text
  | .error cause => failed cause

/-- Carry on with a changed file system, or tell why it was not changed. -/
def withFileSystem (s : Session) : Except FileSystem.Error FileSystem → Outcome × Session
  | .ok fs => (.silent, { s with fileSystem := fs })
  | .error cause => (failed (.fileSystem cause), s)

/-- Move to another directory. To be at the root already is not a failure, but
    the user is told. -/
def changeDir (s : Session) (name : String) : Outcome × Session :=
  match s.fileSystem.cd name with
  | .error .alreadyAtRoot => (.success FileSystem.Error.alreadyAtRoot.message, s)
  | result => s.withFileSystem result

/-- Give a variable the words that follow its name. -/
def setVariable (s : Session) : List String → Session
  | [] => s
  | name :: words =>
    { s with vars := NameMap.insert name (String.intercalate " " words) s.vars }

/-- The value of a variable. -/
def printVariable (s : Session) (name : String) : Outcome :=
  match NameMap.get? name s.vars with
  | some value => .success value
  | none => failed .variableNotFound

/-- Run a command with its arguments. An argument that is missing counts as
    empty. -/
def perform (s : Session) (command : Command) (args : List String) : Step (Outcome × Session) :=
  let arg := args.headD ""
  match command with
  | .help => .done (.success Command.helpText, s)
  | .quit => .done ({ Outcome.success "Bye!" with effect := .quit }, s)
  | .clear => .done ({ Outcome.silent with effect := .clear }, s)
  | .set => .done (.silent, s.setVariable args)
  | .print => .done (s.printVariable arg, s)
  | .echo => .done (.success (s.vars.expand args), s)
  | .ls => .done (.success s.fileSystem.ls, s)
  | .mkdir => .done (s.withFileSystem (s.fileSystem.mkdir arg))
  | .touch => .done (s.withFileSystem (s.fileSystem.touch arg))
  | .cd => .done (s.changeDir arg)
  | .cat => (s.fileText arg).map (fun result => (shown result, s))
  | .source => .done (.success "source command is not implemented in this demo.", s)
  | .run => .done (.success "run command is not supported in this browser-based shell.", s)

/-- Run a line that has been cut into words. -/
def execWords (s : Session) : List String → Step (Outcome × Session)
  | [] => .done (.silent, s)
  | name :: args =>
    match Command.ofName? name with
    | none => .done (failed (.unknown name), s)
    | some command =>
      if command.arity.accepts args.length then s.perform command args
      else .done (failed .arity, s)

/-- Run a line. -/
def exec (s : Session) (line : String) : Step (Outcome × Session) :=
  s.execWords (tokenize line)

end Session

end StrataShell
