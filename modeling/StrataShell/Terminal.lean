import StrataShell.Screen
import StrataShell.Session
import StrataShell.Text.Blank

/-!
# The Terminal

A terminal keeps a dialogue with one session: it takes raw lines, runs those
that say something, and tells what is to be shown. A line is shown before its
answer if the terminal echoes, behind a prompt; the answer always ends its own
line, even when it is empty.

Two commands are answered by the terminal itself. A wipe leaves no trace on the
screen, not even its own line. The end of the dialogue is shown like any other
answer and is final: whatever is submitted later is refused.

## Main definitions

* `Terminal`: A session with its dialogue state.
* `Submission`: What came of one raw line.
* `submit`: Take one raw line.
* `submitAll`: Take raw lines one after another.
-/

namespace StrataShell

/-- A session with the state of the dialogue about it. -/
structure Terminal where
  session : Session
  /-- Whether input is still taken. -/
  enabled : Bool := true
  /-- Whether a line is shown before its answer. -/
  echoInput : Bool := true

/-- What came of one raw line. -/
structure Submission where
  ran : Bool
  events : List ScreenEvent
  terminal : Terminal

namespace Terminal

/-- What stands before a line that is shown. -/
def prompt : String := "$ "

/-- The line as it is shown before its answer, if it is. -/
def echoed (t : Terminal) (line : String) : List ScreenEvent :=
  if t.echoInput then [.append (prompt ++ line ++ "\n")] else []

/-- What is shown of a line and its outcome. -/
def shownFor (t : Terminal) (line : String) (outcome : Outcome) : List ScreenEvent :=
  match outcome.effect with
  | .clear => [.clear]
  | .none | .quit => t.echoed line ++ [.append (outcome.output ++ "\n")]

/-- The terminal after a line has been run. -/
def after (t : Terminal) (outcome : Outcome) (session : Session) : Terminal :=
  { t with session := session, enabled := t.enabled && outcome.effect != .quit }

/-- Take one raw line. The blanks at its ends do not count, and a line that has
    nothing else is not run. -/
def submit (t : Terminal) (raw : String) : Step Submission :=
  let line := Text.trim raw
  if line = "" ∨ t.enabled = false then
    .done { ran := false, events := [], terminal := t }
  else
    (t.session.exec line).map fun result =>
      { ran := true, events := t.shownFor line result.1, terminal := t.after result.1 result.2 }

/-- Take raw lines one after another, with a provider for the contents that
    they ask for: the terminal after them and all that is to be shown. -/
def submitAll (provider : Option Content.Provider) (t : Terminal) :
    List String → Terminal × List ScreenEvent
  | [] => (t, [])
  | raw :: rest =>
    let submission := (t.submit raw).run provider
    let later := submitAll provider submission.terminal rest
    (later.1, submission.events ++ later.2)

end Terminal

end StrataShell
