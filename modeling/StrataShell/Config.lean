import StrataShell.Datum.Tree
import StrataShell.Disk
import StrataShell.Toml.Document

/-!
# Configuration

What a shell starts with: the banner, whether it echoes its input, where
deferred contents are read from, and the permanent tree. A configuration
document may give any of them, and what it does not give has a default. A
permanent tree that is given, even an empty one, takes the place of the default
tree as a whole.

## Main definitions

* `Config`: What a shell starts with.
* `Config.ofToml?`: The configuration that a document gives.
* `Config.load`: The configuration that a file gives.
-/

namespace StrataShell

/-- The banner of a shell that was given none. -/
def defaultBanner : String :=
  "Welcome! Type help to see all commands available to you.\n" ++
  "Note: The mkdir and touch commands modify only your local session and will not affect " ++
  "my permanent files so feel free to play around!\n\n"

/-- The permanent tree of a shell that was given none: one directory with two
    deferred files. -/
def defaultTree : Dir FileContent :=
  Dir.empty.withDir "aboutMe"
    ((Dir.empty.withFile "resume.txt" (.deferred "aboutMe/resume.txt")).withFile
      "contactMe.txt" (.deferred "aboutMe/contactMe.txt"))

/-- What a shell starts with. -/
structure Config where
  banner : String := defaultBanner
  /-- Whether a line is shown before its answer. -/
  echoInput : Bool := true
  /-- The place below which deferred contents are read. -/
  contentRoot : Option String := none
  permanentTree : Dir FileContent := defaultTree

namespace Config

/-- How a permanent tree is read from a document. -/
def treeReading : Dir.Reading FileContent where
  file := FileContent.ofDatum?
  extraItems := true

/-- The configuration with a further field of a document, unless the field has
    the wrong kind of value. Fields of other names are passed over. -/
def withField? (config : Config) (name : String) (value : Datum) : Option Config :=
  if name = "banner" then
    match value with
    | .text text => some { config with banner := text }
    | _ => none
  else if name = "echo_input" then
    match value with
    | .flag flag => some { config with echoInput := flag }
    | _ => none
  else if name = "content_root" then
    match value with
    | .text text => some { config with contentRoot := some text }
    | _ => none
  else if name = "permanent" then do
    let tree ← Dir.ofDatum? treeReading none value
    some { config with permanentTree := tree }
  else some config

/-- The configuration with all the fields of a document. -/
def withFields? (config : Config) : List (Option String × Datum) → Option Config
  | [] => some config
  | (some name, value) :: rest => do
    let config ← config.withField? name value
    config.withFields? rest
  | (none, _) :: _ => none

/-- The configuration that a document gives. -/
def ofToml? (document : String) : Option Config := do
  match ← Toml.parse? document with
  | .record fields => withFields? {} fields
  | _ => none

/-- Why a configuration could not be loaded. -/
inductive LoadError
  /-- The file could not be read. -/
  | unreadable (path : String) (cause : ReadError)
  | malformed
  deriving DecidableEq

/-- The words for a configuration that could not be read. -/
def LoadError.message : LoadError → String
  | .unreadable path cause => "cannot read config " ++ path ++ ": " ++ cause.message
  | .malformed => "invalid config"

/-- The configuration that the answer to reading a file gives. -/
def ofRead (path : String) : Except ReadError String → Except LoadError Config
  | .error cause => .error (.unreadable path cause)
  | .ok document =>
    match ofToml? document with
    | none => .error .malformed
    | some config => .ok config

/-- The configuration that a file gives. -/
def load (disk : Disk) (path : String) : Except LoadError Config :=
  ofRead path (disk path)

end Config

end StrataShell
