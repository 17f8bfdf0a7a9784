/-!
# Options of the Command Line

The words of a command line are read from left to right, and the first that
settles the matter does so: a fault, or the wish for help or for the version,
counts only if nothing before it has ended the reading.

A setting takes its value from the same word, behind an equals sign or, for the
short option, directly; otherwise the next word is its value, unless that looks
like an option itself. Nothing may be given twice, there are no words besides
options, and a path must not be empty.

## Main definitions

* `Options`: What the command line asks for.
* `Word`: What one word means.
* `Request`: What the whole command line asks for.
* `parse`: Read a command line.
-/

namespace StrataShell

namespace CommandLine

/-- What a command line asks for when the program is to run. -/
structure Options where
  /-- The line to run instead of a dialogue. -/
  command : Option String := none
  configPath : Option String := none
  /-- The place below which deferred contents are read. -/
  contentRoot : Option String := none
  /-- Whether the outcome of a single line is written as JSON. -/
  json : Bool := false
  noBanner : Bool := false
  deriving DecidableEq

/-- An option with a value. -/
inductive Setting
  | command
  | configPath
  | contentRoot
  deriving DecidableEq

/-- An option without a value. -/
inductive Flag
  | json
  | noBanner
  deriving DecidableEq

/-- What one word of a command line means. -/
inductive Word
  /-- A setting, with its value if the word holds it. -/
  | setting (s : Setting) (value : Option String)
  | flag (f : Flag)
  | help
  | version
  /-- The word behind which there are no options. -/
  | endOfOptions
  /-- A word that is no option: the value of one, or out of place. -/
  | plain (text : String)
  | unknown
  deriving DecidableEq

/-- The meaning of a long option that has no value in its word. -/
def longWord (name : String) : Word :=
  if name = "config" then .setting .configPath none
  else if name = "content-root" then .setting .contentRoot none
  else if name = "json" then .flag .json
  else if name = "no-banner" then .flag .noBanner
  else if name = "help" then .help
  else if name = "version" then .version
  else .unknown

/-- The meaning of a long option with a value in its word: only a setting may
    have one. -/
def longWordWith (name value : String) : Word :=
  match longWord name with
  | .setting s _ => .setting s (some value)
  | _ => .unknown

/-- The meaning of the characters behind two dashes. -/
def classifyLong (cs : List Char) : Word :=
  let name := String.ofList (cs.takeWhile (· != '='))
  match cs.dropWhile (· != '=') with
  | _ :: value => longWordWith name (String.ofList value)
  | [] => longWord name

/-- The value that stands directly behind a short option. -/
def attachedValue (cs : List Char) : Option String :=
  match cs with
  | [] => none
  | '=' :: rest => some (String.ofList rest)
  | _ => some (String.ofList cs)

/-- The meaning of a word. -/
def classify (word : String) : Word :=
  match word.toList with
  | ['-', '-'] => .endOfOptions
  | '-' :: '-' :: rest => classifyLong rest
  | '-' :: 'c' :: rest => .setting .command (attachedValue rest)
  | '-' :: 'h' :: _ => .help
  | '-' :: 'V' :: _ => .version
  | '-' :: _ :: _ => .unknown
  | _ => .plain word

/-- What a whole command line asks for. -/
inductive Request
  /-- The command line is at fault. -/
  | misuse
  | help
  | version
  | run (options : Options)
  deriving DecidableEq

namespace Options

/-- The options with a flag, unless they have it already. -/
def withFlag? (o : Options) : Flag → Option Options
  | .json => if o.json then none else some { o with json := true }
  | .noBanner => if o.noBanner then none else some { o with noBanner := true }

/-- The options with a setting, unless they have it already or it is an empty
    path. -/
def withSetting? (o : Options) (s : Setting) (value : String) : Option Options :=
  match s with
  | .command => if o.command.isSome then none else some { o with command := some value }
  | .configPath =>
    if o.configPath.isSome ∨ value = "" then none else some { o with configPath := some value }
  | .contentRoot =>
    if o.contentRoot.isSome ∨ value = "" then none else some { o with contentRoot := some value }

end Options

/-- Read the words of a command line, some options having been read. -/
def interpret (o : Options) : List Word → Request
  | [] => .run o
  | .help :: _ => .help
  | .version :: _ => .version
  | .flag f :: rest =>
    match o.withFlag? f with
    | none => .misuse
    | some o => interpret o rest
  | .setting s (some value) :: rest =>
    match o.withSetting? s value with
    | none => .misuse
    | some o => interpret o rest
  | .setting s none :: .plain value :: rest =>
    match o.withSetting? s value with
    | none => .misuse
    | some o => interpret o rest
  | .endOfOptions :: rest => if rest.isEmpty then .run o else .misuse
  | _ => .misuse

/-- Read a command line. -/
def parse (words : List String) : Request :=
  interpret {} (words.map classify)

/-- The text about the program and its options. -/
def helpText : String :=
  "A simulated shell over a layered in-memory file system\n\n" ++
  "Usage: sim-shell [OPTIONS]\n\n" ++
  "Options:\n" ++
  "  -c <COMMAND>                       Run a single command line and exit\n" ++
  "      --config <CONFIG>              TOML file with the banner and permanent tree\n" ++
  "      --content-root <CONTENT_ROOT>  Directory that deferred permanent files are read from\n" ++
  "      --json                         Output the result of -c as JSON (output, exitCode)\n" ++
  "      --no-banner                    Do not print the welcome banner\n" ++
  "  -h, --help                         Print help\n" ++
  "  -V, --version                      Print version\n"

/-- The text about the version of the program. -/
def versionText : String := "sim-shell 0.1.0\n"

end CommandLine

end StrataShell
