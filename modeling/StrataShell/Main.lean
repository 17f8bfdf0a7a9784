import StrataShell.CommandLine.Run

/-!
# The Program

The outer layer: it reads the files and the input that a run needs, hands them
to `CommandLine`, and writes what comes back. Files are read only when a step
asks for them, and a dialogue answers each line before it reads the next.

## Main definitions

* `main`: The program.
-/

namespace StrataShell

namespace Program

/-- The cause of a failed read. -/
def causeOf : IO.Error → ReadError
  | .noFileOrDirectory .. => .notFound
  | .inappropriateType .. => .isDirectory
  | .illegalOperation .. => .isDirectory
  | .invalidArgument .. => .nulInPath
  | .resourceExhausted .. => .nameTooLong
  | .permissionDenied .. => .other "Permission denied (os error 13)"
  | _ => .notDirectory

/-- Read a text file. -/
def readText (path : String) : IO (Except ReadError String) := do
  try
    let bytes ← IO.FS.readBinFile path
    match String.fromUTF8? bytes with
    | some text => return .ok text
    | none => return .error .notText
  catch e => return .error (causeOf e)

/-- Finish a step, reading below a content root what it asks for. -/
def finish {α : Type} (root : Option String) : Step α → IO α
  | .done result => return result
  | .fetch path resume => do
    match root with
    | none => return resume (.error .unavailable)
    | some root =>
      let answer ← match Content.contentPath root path with
        | none => pure (Content.directory (fun _ => .error .notFound) root path)
        | some place => do
          let read ← readText place
          pure (Content.directory (fun _ => read) root path)
      return resume (Content.textOf answer)

/-- Write a text at once. -/
def write (text : String) : IO Unit := do
  let out ← IO.getStdout
  out.putStr text
  out.flush

/-- Read one line, if there is one that is text. -/
def readLine : IO (Option String) := do
  try
    let line ← (← IO.getStdin).getLine
    return (Text.textLines line.toUTF8.toList).head?
  catch _ => return none

/-- Hold a dialogue until the input or the user ends it. -/
partial def converse (root : Option String) (t : Terminal) : IO Unit := do
  if t.enabled then
    match ← readLine with
    | none => return
    | some raw =>
      let submission ← finish root (t.submit raw)
      write (ScreenEvent.stream submission.events)
      converse root submission.terminal

/-- Run with some options: the exit code. -/
def runOptions (o : CommandLine.Options) : IO Nat := do
  let loaded ← match o.configPath with
    | none => pure (.ok {})
    | some path => do
      let read ← readText path
      pure (Config.ofRead path read)
  match loaded with
  | .error cause =>
    IO.eprintln ("Error: " ++ cause.message)
    return CommandLine.configFailure
  | .ok config =>
    let root := CommandLine.contentRoot o config
    match o.command with
    | some line =>
      let result ← finish root ((CommandLine.session config).exec (Text.trim line))
      let report := CommandLine.reportOutcome o.json result.1
      write report.stdout
      return report.code
    | none =>
      write (ScreenEvent.stream (CommandLine.opening o config))
      converse root (CommandLine.terminal config)
      return 0

end Program

end StrataShell

/-- The program. -/
def main (args : List String) : IO UInt32 := do
  match StrataShell.CommandLine.parse args with
  | .run o =>
    let code ← StrataShell.Program.runOptions o
    return code.toUInt32
  | _ =>
    let report := StrataShell.CommandLine.run (fun _ => .error .notFound) [] args
    StrataShell.Program.write report.stdout
    return report.code.toUInt32
