/-!
# What Happens on a Screen

A dialogue reaches its reader as a sequence of events: text is added at the
end, or everything shown so far is wiped. The events are the same whether the
reader holds a buffer that can really be emptied or a stream of bytes that can
only grow; the two differ in what a wipe means. A buffer forgets its contents,
and a stream is sent the control sequence that makes a display forget them.

## Main definitions

* `ScreenEvent`: Text added, or everything wiped.
* `buffer`: The contents of a buffer after some events.
* `stream`: What a stream is sent for some events.

## Theorems

* `buffer_append`, `stream_append`: Events one after the other add up.
-/

namespace StrataShell

/-- What happens on a screen. -/
inductive ScreenEvent
  | append (text : String)
  | clear
  deriving DecidableEq

namespace ScreenEvent

/-- The contents of a buffer after one more event. -/
def onBuffer (contents : String) : ScreenEvent → String
  | .append text => contents ++ text
  | .clear => ""

/-- The contents of a buffer after some events. -/
def buffer (contents : String) (events : List ScreenEvent) : String :=
  events.foldl onBuffer contents

/-- The control sequence that wipes a display and moves to its first place. -/
def clearSequence : String := "\x1b[2J\x1b[H"

/-- What a stream is sent for an event. -/
def onStream : ScreenEvent → String
  | .append text => text
  | .clear => clearSequence

/-- What a stream is sent for some events. -/
def stream (events : List ScreenEvent) : String :=
  String.join (events.map onStream)

/-- A buffer takes events one after the other. -/
theorem buffer_append (contents : String) (first second : List ScreenEvent) :
    buffer contents (first ++ second) = buffer (buffer contents first) second :=
  List.foldl_append

/-- A stream is sent events one after the other. -/
theorem stream_append (first second : List ScreenEvent) :
    stream (first ++ second) = stream first ++ stream second := by
  simp only [stream, List.map_append, String.join_append]

end ScreenEvent

end StrataShell
