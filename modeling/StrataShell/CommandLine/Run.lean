import StrataShell.CommandLine.Options
import StrataShell.Config
import StrataShell.Json.Printer
import StrataShell.Terminal
import StrataShell.Text.Lines

/-!
# Runs of the Program

What one run of the program writes and which exit code it ends with, as a
function of its command line, its standard input and the disk. A run either
executes the one line given to it, or holds a dialogue with the lines of its
input.

The exit code tells of the single line whether it failed. A dialogue always
ends well, however its lines fare: it ends because the input ends, because a
line of it cannot be read, or because the user quits.

## Main definitions

* `Report`: Text written and exit code.
* `session`: The session that a configuration starts.
* `oneShot`: The report on a single line.
* `dialogue`: The report on the lines of an input.
* `run`: The report on a command line.
-/

namespace StrataShell

namespace CommandLine

/-- What a run leaves behind. -/
structure Report where
  stdout : String := ""
  code : Nat := 0
  deriving DecidableEq

/-- The exit code of a run whose configuration could not be loaded. -/
def configFailure : Nat := 1

/-- The exit code of a run whose command line is at fault. -/
def misuse : Nat := 2

/-- The session that a configuration starts. -/
def session (config : Config) : Session :=
  { fileSystem := { permanentTree := config.permanentTree } }

/-- The place below which deferred contents are read: what the command line
    says goes before what the configuration says. -/
def contentRoot (o : Options) (config : Config) : Option String :=
  match o.contentRoot with
  | some root => some root
  | none => config.contentRoot

/-- The provider of deferred contents, if there is a place to read them
    from. -/
def provider (disk : Disk) (o : Options) (config : Config) : Option Content.Provider :=
  (contentRoot o config).map (Content.directory disk)

/-- An outcome as data. -/
def outcomeDatum (outcome : Outcome) : Datum :=
  .record [(some "exitCode", .number (toString outcome.exitCode)),
    (some "output", .text outcome.output)]

/-- The report on the outcome of a single line. -/
def reportOutcome (json : Bool) (outcome : Outcome) : Report where
  stdout :=
    if json then Json.render (outcomeDatum outcome) ++ "\n"
    else if outcome.output = "" then ""
    else outcome.output ++ "\n"
  code := outcome.exitCode

/-- The report on a single line. -/
def oneShot (disk : Disk) (o : Options) (config : Config) (line : String) : Report :=
  let result := ((session config).exec (Text.trim line)).run (provider disk o config)
  reportOutcome o.json result.1

/-- The terminal that a configuration starts. -/
def terminal (config : Config) : Terminal :=
  { session := session config, echoInput := config.echoInput }

/-- What a dialogue begins with. -/
def opening (o : Options) (config : Config) : List ScreenEvent :=
  if o.noBanner then [] else [.append config.banner]

/-- The report on the lines of an input. -/
def dialogue (disk : Disk) (o : Options) (config : Config) (stdin : List UInt8) : Report :=
  let events := ((terminal config).submitAll (provider disk o config) (Text.textLines stdin)).2
  { stdout := ScreenEvent.stream (opening o config ++ events) }

/-- The configuration that the options ask for. -/
def configFor (disk : Disk) (o : Options) : Except Config.LoadError Config :=
  match o.configPath with
  | none => .ok {}
  | some path => Config.load disk path

/-- The report on a run with some options. -/
def runOptions (disk : Disk) (stdin : List UInt8) (o : Options) : Report :=
  match configFor disk o with
  | .error _ => { code := configFailure }
  | .ok config =>
    match o.command with
    | some line => oneShot disk o config line
    | none => dialogue disk o config stdin

/-- The report on a command line. -/
def run (disk : Disk) (stdin : List UInt8) (words : List String) : Report :=
  match parse words with
  | .misuse => { code := misuse }
  | .help => { stdout := helpText }
  | .version => { stdout := versionText }
  | .run o => runOptions disk stdin o

end CommandLine

end StrataShell
