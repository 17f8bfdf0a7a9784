import StrataShell.CommandLine.Run
import StrataShell.Proofs.Text.Lines
import StrataShell.Proofs.Transcript

/-!
# A Dialogue Through a Pipe

The program keeps a dialogue with whatever is piped into it, and what it writes
can be told from the lines alone. It differs from the screen of a terminal in one
respect only. A screen that is wiped is empty; a stream has been sent what it has
been sent, and a wipe is one more thing to send. What was sent since the last
wipe is what the screen holds.

On the other side the lines arrive as bytes, and a line can be ended in more ways
than one. The terminal does not see the difference.

## Main definitions

* `Terminal.sentText`: What a stream is sent for an exchange.
* `CommandLine.written`: What a dialogue writes in which some lines are run.

## Theorems

* `stream_eq_buffer_or`: A stream ends with what a buffer holds, and this is all
  of it or stands behind a wipe.
* `stream_submitAll`: A stream is sent the exchanges of a dialogue one by one.
* `run_eq_written`: What a run writes is settled by the lines that are run.
* `piped_as_terminal`: All of it, for a run of the program.
-/

namespace StrataShell

namespace ScreenEvent

theorem stream_singleton (event : ScreenEvent) : stream [event] = event.onStream := by
  rw [stream, List.map_singleton, String.join_cons, String.join_nil, String.append_empty]

/-- A stream ends with what a buffer holds. Either this is all that it was sent,
    or it stands behind the last wipe. -/
theorem stream_eq_buffer_or (events : List ScreenEvent) :
    stream events = buffer "" events
      ∨ ∃ before, stream events = before ++ clearSequence ++ buffer "" events := by
  induction events using List.reverseRecOn with
  | nil => exact Or.inl rfl
  | append_singleton events event ih =>
    rw [stream_append, buffer_append, stream_singleton]
    cases event with
    | clear => exact Or.inr ⟨stream events, String.append_empty.symm⟩
    | append text =>
      have hbuffer : buffer (buffer "" events) [.append text] = buffer "" events ++ text := rfl
      rw [hbuffer, onStream]
      rcases ih with hall | ⟨before, hwiped⟩
      · exact Or.inl (by rw [hall])
      · exact Or.inr ⟨before, by rw [hwiped, String.append_assoc]⟩

end ScreenEvent

namespace Terminal

variable {t : Terminal}

/-- What a stream is sent for an exchange: the control sequence for a wipe, and
    else what is shown. -/
def sentText (echo : Bool) (x : Exchange) : String :=
  if wipes x then ScreenEvent.clearSequence else shownText echo x

theorem stream_eventsOf (echo : Bool) (x : Exchange) :
    ScreenEvent.stream (eventsOf echo x) = sentText echo x := by
  rw [eventsOf, sentText, shownText]
  split
  · rfl
  · cases echo <;> simp [ScreenEvent.stream, ScreenEvent.onStream, String.append_assoc]

theorem stream_flatMap (echo : Bool) (xs : List Exchange) :
    ScreenEvent.stream (xs.flatMap (eventsOf echo)) = String.join (xs.map (sentText echo)) := by
  induction xs with
  | nil => rfl
  | cons x rest ih =>
    rw [List.flatMap_cons, ScreenEvent.stream_append, stream_eventsOf, ih, List.map_cons,
      String.join_cons]

/-- A stream is sent the exchanges of a dialogue one by one. -/
theorem stream_submitAll (provider : Option Content.Provider) (hon : t.enabled = true)
    (lines : List String) :
    ScreenEvent.stream (t.submitAll provider lines).2
      = String.join ((t.session.exchanges provider (kept lines)).map (sentText t.echoInput)) := by
  rw [submitAll_snd provider hon, stream_flatMap]

-- Which lines are run is settled by what the lines say.
theorem kept_congr {lines others : List String} (h : Text.spoken lines = Text.spoken others) :
    kept lines = kept others :=
  congrArg (upToFirst (Session.calls "quit")) h

end Terminal

namespace CommandLine

variable {disk : Disk} {words : List String} {o : Options} {config : Config}

/-- What a dialogue writes in which some lines are run. -/
def written (disk : Disk) (o : Options) (config : Config) (lines : List String) : String :=
  (if o.noBanner then "" else config.banner)
    ++ String.join (((session config).exchanges (provider disk o config) lines).map
      (Terminal.sentText config.echoInput))

theorem stream_opening (o : Options) (config : Config) :
    ScreenEvent.stream (opening o config) = if o.noBanner then "" else config.banner := by
  rw [opening]
  cases o.noBanner with
  | true => rfl
  | false => exact ScreenEvent.stream_singleton _

/-- What a stream is sent of a dialogue is settled by the lines that are run. -/
theorem stream_dialogue (disk : Disk) (o : Options) (config : Config) (lines : List String) :
    ScreenEvent.stream (opening o config
        ++ ((terminal config).submitAll (provider disk o config) lines).2)
      = written disk o config (Terminal.kept lines) := by
  have hstream :=
    Terminal.stream_submitAll (t := terminal config) (provider disk o config) rfl lines
  rw [ScreenEvent.stream_append, stream_opening, hstream]
  rfl

/-- A run without a line of its own is a dialogue with the texts between the line
    feeds of its input. It ends well. -/
theorem run_eq_written (hparse : parse words = .run o) (hcommand : o.command = none)
    (hconfig : configFor disk o = .ok config) (stdin : List UInt8) :
    run disk stdin words
      = { stdout := written disk o config (Terminal.kept (Text.splitLines stdin)), code := 0 } := by
  have hrun : run disk stdin words = dialogue disk o config stdin := by
    simp only [run, hparse, runOptions, hconfig, hcommand]
  rw [hrun, dialogue, stream_dialogue, Terminal.kept_congr (Text.spoken_textLines stdin)]

/-- A run through a pipe is a dialogue with a terminal. The lines of the input are
    the texts between its line feeds, up to the first that cannot be read, and
    those that a terminal runs of them are run. The run ends well and writes the
    banner, if it is wanted, and then for every line that was run the control
    sequence if it wipes, and what a terminal shows if it does not. All of this is
    what the screen of the terminal holds, or the screen stands at its end behind
    a control sequence. Lines without a line feed in them can be written with
    either ending behind each of them, and with or without one behind the last:
    they are run as they are, and the report is the same. -/
theorem piped_as_terminal (hparse : parse words = .run o) (hcommand : o.command = none)
    (hconfig : configFor disk o = .ok config) (stdin : List UInt8) :
    let t := terminal config
    let ask := provider disk o config
    let lines := Text.splitLines stdin
    let ran := t.ranLines ask lines
    let report := run disk stdin words
    let screen := ScreenEvent.buffer "" (opening o config ++ (t.submitAll ask lines).2)
    ran = Terminal.kept lines
      ∧ report.code = 0
      ∧ report.stdout = (if o.noBanner then "" else config.banner)
        ++ String.join ((t.session.exchanges ask ran).map (fun x =>
          if Session.calls "clear" x.line then "\x1b[2J\x1b[H"
          else Terminal.shownText t.echoInput x))
      ∧ (report.stdout = screen ∨ ∃ before, report.stdout = before ++ "\x1b[2J\x1b[H" ++ screen)
      ∧ ∀ texts, (∀ text ∈ texts, '\n' ∉ text.toList) → Text.Writes texts stdin →
        ran = Terminal.kept texts
          ∧ ∀ other, Text.Writes texts other → run disk other words = report := by
  intro t ask lines ran report screen
  have hran : ran = Terminal.kept lines := Terminal.ranLines_eq_kept ask rfl lines
  have hrun : ∀ bytes, run disk bytes words
      = { stdout := written disk o config (Terminal.kept (Text.splitLines bytes)), code := 0 } :=
    run_eq_written hparse hcommand hconfig
  have hstdout : report.stdout = written disk o config (Terminal.kept lines) :=
    congrArg Report.stdout (hrun stdin)
  refine ⟨hran, congrArg Report.code (hrun stdin), ?written, ?screen, ?endings⟩
  case written =>
    rw [hstdout, hran]
    rfl
  case screen =>
    rw [hstdout, ← stream_dialogue]
    exact ScreenEvent.stream_eq_buffer_or _
  case endings =>
    intro texts htexts hwrites
    have hsaid : ∀ bytes, Text.Writes texts bytes →
        Terminal.kept (Text.splitLines bytes) = Terminal.kept texts :=
      fun bytes hbytes => Terminal.kept_congr (hbytes.spoken_splitLines htexts)
    refine ⟨hran.trans (hsaid stdin hwrites), fun other hother => ?_⟩
    rw [hrun other, hsaid other hother, ← hsaid stdin hwrites, ← hrun stdin]

/-- A dialogue that wipes the screen and ends before its last line, with endings
    of both kinds, and with none behind the last line. -/
theorem piped_as_terminal_wiped :
    let disk : Disk := fun _ => .error .notFound
    let words := ["--no-banner"]
    let o : Options := { noBanner := true }
    let texts := ["echo a ", " clear", "quit", "ls"]
    let stdin := Text.toBytes ("echo a " ++ "\r\n") ++ (Text.toBytes (" clear" ++ "\n")
      ++ (Text.toBytes ("quit" ++ "\r\n") ++ Text.toBytes "ls"))
    let other := Text.toBytes ("echo a " ++ "\n") ++ (Text.toBytes (" clear" ++ "\r\n")
      ++ (Text.toBytes ("quit" ++ "\n") ++ (Text.toBytes ("ls" ++ "\n") ++ [])))
    let shown := "$ quit\nBye!\n"
    parse words = .run o ∧ o.command = none ∧ configFor disk o = .ok {}
      ∧ (∀ text ∈ texts, '\n' ∉ text.toList)
      ∧ Text.Writes texts stdin ∧ Text.Writes texts other
      ∧ (run disk stdin words).stdout = "$ echo a\na\n" ++ "\x1b[2J\x1b[H" ++ shown
      ∧ (run disk stdin words).code = 0
      ∧ run disk other words = run disk stdin words := by
  intro disk words o texts stdin other shown
  have hparse : parse words = .run o := by decide +kernel
  have htexts : ∀ text ∈ texts, '\n' ∉ text.toList := by decide
  have hstdin : Text.Writes texts stdin :=
    .cons _ _ (Or.inr rfl) (.cons _ _ (Or.inl rfl) (.cons _ _ (Or.inr rfl) (.unended _)))
  have hother : Text.Writes texts other :=
    .cons _ _ (Or.inl rfl) (.cons _ _ (Or.inr rfl) (.cons _ _ (Or.inl rfl)
      (.cons _ _ (Or.inl rfl) .nil)))
  rcases @piped_as_terminal disk words o {} hparse rfl rfl stdin with
    ⟨-, hcode, hstdout, -, hendings⟩
  rcases hendings texts htexts hstdin with ⟨hran, hsame⟩
  refine ⟨hparse, rfl, rfl, htexts, hstdin, hother, ?_, hcode, hsame other hother⟩
  rw [hran] at hstdout
  exact hstdout.trans (by decide +kernel)

end CommandLine

end StrataShell
