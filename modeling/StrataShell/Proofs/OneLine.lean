import StrataShell.Proofs.Json.Parser
import StrataShell.Proofs.Piped

/-!
# One Line, Given or Piped

A line can be given to the program on its command line, or be the only one that
comes through a pipe. The two ways have nothing in common but the shell. A given
line is handed to it as it is, even if nothing is in it, and its outcome is reported
without looking at the effect; a piped line passes through a terminal, which leaves
blank lines out, answers a wipe with a control sequence, and shows an empty answer
as an empty line. A given line decides the exit code, a piped one does not.

All the same they show the same, and the differences are those three. They come down
to what the shell makes of a blank line and of a wipe: both are answered with
nothing.

The outcome of a given line can also be asked for as data. Whatever stands in the
answer, it is then written on one line, without a control character, and a reader
gets it back.

## Theorems

* `parse?_render_outcome`: An outcome that is written as data is read back.
* `reportOutcome_data`: An outcome told as data is shown on one line.
* `parse_given`: Every line can be given.
* `run_given`: A run with a line of its own reports its outcome.
* `run_piped`: What a run writes of the only line that is piped.
* `given_as_piped`: Both runs of one line, side by side.
-/

namespace StrataShell

namespace Session

/-- A wipe is answered with nothing and changes nothing. -/
theorem exec_of_calls_clear (s : Session) {line : String} (h : calls "clear" line = true) :
    s.exec line = .done ({ Outcome.silent with effect := .clear }, s) := by
  rw [calls, decide_eq_true_eq] at h
  rcases List.head?_eq_some_iff.mp h with ⟨args, hwords⟩
  exact exec_eq_perform .clear hwords rfl

-- So is a line with nothing in it.
theorem exec_blank (s : Session) : s.exec "" = .done (.silent, s) := rfl

end Session

namespace CommandLine

open Json (Token Quoted Written WrittenFields token_self quoted_quote)

/-! ### Outcomes as data -/

-- A digit is a number of its own in front of a comma.
theorem value?_digit {c : Char} (h : c = '0' ∨ c = '1') (fuel : Nat) (rest : List Char) :
    Json.value? (fuel + 1) (c :: ',' :: rest)
      = some (.number (String.ofList [c]), ',' :: rest) := by
  have hlength : (c :: ',' :: rest).length - (',' :: rest).length = 1 := by
    rw [List.length_cons]
    omega
  have hscan : Json.Number.scan? (c :: ',' :: rest) = some ({ whole := [c] }, ',' :: rest) := by
    rcases h with rfl | rfl <;> rfl
  have hfinite : Json.Number.Literal.isFinite { whole := [c] } = true := by
    rcases h with rfl | rfl <;> decide +kernel
  have hnumber : Json.scanNumber? (c :: ',' :: rest)
      = some (.number (String.ofList [c]), ',' :: rest) := by
    simp only [Json.scanNumber?, hscan, bind, Option.bind, hlength, hfinite, if_true,
      List.take_succ_cons, List.take_zero]
  rw [← hnumber]
  rcases h with rfl | rfl <;> rfl

-- An exit code is written as a digit.
theorem exists_digit {code : Nat} (h : code = 0 ∨ code = 1) :
    ∃ c, (c = '0' ∨ c = '1') ∧ (toString code).toList = [c] := by
  rcases h with rfl | rfl
  · exact ⟨'0', Or.inl rfl, by decide⟩
  · exact ⟨'1', Or.inr rfl, by decide⟩

-- The fields of an outcome are read, the code before the answer.
theorem fields?_outcome {c : Char} (hc : c = '0' ∨ c = '1') {output : String} {later : List Char}
    (hlater : WrittenFields [(some "output", .text output)] later) {fuel : Nat}
    (hfuel : later.length ≤ fuel) :
    Json.fields? (fuel + 2) (Json.quote "exitCode".toList ++ ([':'] ++ (c :: ',' :: later)))
      = some ([(some "exitCode", .number (String.ofList [c])), (some "output", .text output)],
          []) := by
  have hrest := (Json.reads (fuel + 1)).2.2 _ later [] hlater (Nat.le_succ_of_le hfuel)
  rw [List.append_nil] at hrest
  exact Json.fields?_more (quoted_quote "exitCode") (token_self [':'])
    (value?_digit hc fuel later) (token_self [',']) hrest

theorem renderChars_outcome (r : Outcome) :
    Json.renderChars (outcomeDatum r) = ['\x7b'] ++ (Json.quote "exitCode".toList
      ++ ([':'] ++ ((toString r.exitCode).toList ++ ',' :: (Json.quote "output".toList
        ++ ([':'] ++ (Json.quote r.output.toList ++ ['\x7d'])))))) := by
  simp [outcomeDatum, Json.renderChars, Json.renderFields]

/-- An outcome that is written as data is read back. -/
theorem parse?_render_outcome {r : Outcome} (h : r.exitCode = 0 ∨ r.exitCode = 1) :
    Json.parse? (Json.render (outcomeDatum r)) = some (outcomeDatum r) := by
  rcases exists_digit h with ⟨c, hc, hcode⟩
  have hliteral : toString r.exitCode = String.ofList [c] := by rw [← hcode, String.ofList_toList]
  have hlast : WrittenFields [(some "output", .text r.output)] (Json.quote "output".toList
      ++ ([':'] ++ (Json.quote r.output.toList ++ ['\x7d']))) :=
    .last (quoted_quote "output") (token_self [':']) (.text (quoted_quote r.output))
      (token_self ['\x7d'])
  have hchars := renderChars_outcome r
  rw [hcode] at hchars
  generalize Json.quote "output".toList ++ ([':'] ++ (Json.quote r.output.toList ++ ['\x7d']))
    = later at hlast hchars
  -- There are more characters than in the last field, so there is fuel for all of it.
  have hfuel : ∃ fuel, 2 * (Json.renderChars (outcomeDatum r)).length + 2 = fuel + 3
      ∧ later.length ≤ fuel := by
    refine ⟨2 * (Json.renderChars (outcomeDatum r)).length - 1, ?_⟩
    rw [hchars]
    simp only [List.length_append, List.length_cons]
    omega
  rcases hfuel with ⟨fuel, hfuel, hlength⟩
  have hread : Json.value? (fuel + 3) (Json.renderChars (outcomeDatum r))
      = some (outcomeDatum r, []) := by
    have hrecord := Json.value?_record (token_self ['\x7b'])
      (token_self (Json.quote "exitCode".toList ++ ([':'] ++ (c :: ',' :: later)))) (fuel + 2) []
    rw [List.append_nil, fields?_outcome hc hlast hlength] at hrecord
    rw [hchars, outcomeDatum, hliteral]
    exact hrecord
  simp only [Json.parse?, Json.render, String.toList_ofList, hfuel, hread]
  rfl

/-- There is no control character in an outcome that is written as data. -/
theorem not_control_of_mem_render {r : Outcome} (h : r.exitCode = 0 ∨ r.exitCode = 1) :
    ∀ c ∈ (Json.render (outcomeDatum r)).toList, ¬ c.toNat < 0x20 := by
  have hquote : ∀ text : List Char, ∀ c ∈ Json.quote text, ¬ c.toNat < 0x20 := by
    intro text
    exact List.forall_mem_cons.mpr ⟨by decide, List.forall_mem_append.mpr
      ⟨(Json.spelledText_escape text).not_control, List.forall_mem_singleton.mpr (by decide)⟩⟩
  have hcode : ∀ c ∈ (toString r.exitCode).toList, ¬ c.toNat < 0x20 := by
    rcases exists_digit h with ⟨c, hc, hdigit⟩
    rw [hdigit]
    exact List.forall_mem_singleton.mpr (by rcases hc with rfl | rfl <;> decide)
  rw [Json.render, String.toList_ofList, renderChars_outcome]
  simp only [List.forall_mem_append, List.forall_mem_cons]
  exact ⟨⟨by decide, List.forall_mem_nil _⟩, hquote _, ⟨by decide, List.forall_mem_nil _⟩, hcode,
    by decide, hquote _, ⟨by decide, List.forall_mem_nil _⟩, hquote _, by decide,
    List.forall_mem_nil _⟩

/-- Told as data, an outcome is shown on one line, from which it is read back. -/
theorem reportOutcome_data {r : Outcome} (h : r.exitCode = 0 ∨ r.exitCode = 1) :
    ∃ document, (reportOutcome true r).stdout = document ++ "\n"
      ∧ (∀ c ∈ document.toList, ¬ c.toNat < 0x20)
      ∧ Json.parse? document = some (outcomeDatum r) :=
  ⟨Json.render (outcomeDatum r), rfl, not_control_of_mem_render h, parse?_render_outcome h⟩

-- Told as text, an outcome is its answer on a line of its own, if there is one.
theorem reportOutcome_text (r : Outcome) :
    (reportOutcome false r).stdout = if r.output = "" then "" else r.output ++ "\n" := rfl

/-! ### Both runs -/

variable {disk : Disk} {words others : List String} {o p : Options} {config quiet : Config}
  {line : String} {stdin : List UInt8}

/-- Every line can be given. -/
theorem parse_given (line : String) : parse ["-c=" ++ line] = .run { command := some line } := by
  have hchars : ("-c=" ++ line).toList = '-' :: 'c' :: '=' :: line.toList := by
    rw [String.toList_append]
    rfl
  have hword : classify ("-c=" ++ line) = .setting .command (some line) := by
    rw [classify, hchars]
    simp only [attachedValue, String.ofList_toList]
  rw [parse, List.map_singleton, hword]
  rfl

/-- A run with a line of its own reports the outcome of that line, trimmed, and pays
    no attention to its input. -/
theorem run_given (hparse : parse words = .run o) (hcommand : o.command = some line)
    (hconfig : configFor disk o = .ok config) (input : List UInt8) :
    run disk input words = reportOutcome o.json
      (((session config).exec (Text.trim line)).run (provider disk o config)).1 := by
  simp only [run, hparse, runOptions, hconfig, hcommand]
  rfl

/-- Of the only line that is piped a run writes nothing if it is blank, a control
    sequence if it wipes, and else the answer with a line feed behind it. -/
theorem run_piped (hparse : parse words = .run o) (hcommand : o.command = none)
    (hconfig : configFor disk o = .ok config) (hbanner : o.noBanner = true)
    (hecho : config.echoInput = false) (hfeed : '\n' ∉ line.toList)
    (hwrites : Text.Writes [line] stdin) :
    run disk stdin words =
      { stdout :=
          if Text.trim line = "" then ""
          else if Session.calls "clear" (Text.trim line) then ScreenEvent.clearSequence
          else (((session config).exec (Text.trim line)).run (provider disk o config)).1.output
            ++ "\n",
        code := 0 } := by
  have hsaid : Terminal.kept (Text.splitLines stdin) = Terminal.kept [line] :=
    Terminal.kept_congr (hwrites.spoken_splitLines (List.forall_mem_singleton.mpr hfeed))
  have hnone : Terminal.kept [] = [] := rfl
  rw [run_eq_written hparse hcommand hconfig stdin, hsaid, written, if_pos hbanner, hecho,
    String.empty_append]
  by_cases hblank : Text.trim line = ""
  · rw [Terminal.kept_cons_of_blank hblank, hnone, if_pos hblank]
    rfl
  · rw [Terminal.kept_cons_of_ne hblank, hnone, ite_self, if_neg hblank]
    simp only [Session.exchanges, List.map_cons, List.map_nil, String.join_cons, String.join_nil,
      String.append_empty, Terminal.sentText, Terminal.wipes, Terminal.shownText,
      Bool.false_eq_true, if_false, String.empty_append]

/-- One line, given and piped. Where the configurations agree in what they tell the
    shell, and the piped run neither echoes nor shows a banner, the given line ends
    with the exit code of its outcome and the piped one well. A blank line shows
    nothing in either. A wipe shows nothing where the line is given, and where it is
    piped the control sequence. Any other line shows its answer on a line of its own
    in both, only that an empty answer is left out where the line is given. As data,
    the outcome of a given line is written on one line without a control character,
    and its fields are read back from there. -/
theorem given_as_piped (hgiven : parse words = .run o) (hline : o.command = some line)
    (hconfig : configFor disk o = .ok config) (hpiped : parse others = .run p)
    (hnone : p.command = none) (hquiet : configFor disk p = .ok quiet)
    (hbanner : p.noBanner = true) (hecho : quiet.echoInput = false)
    (htree : quiet.permanentTree = config.permanentTree)
    (hroot : contentRoot p quiet = contentRoot o config) (hfeed : '\n' ∉ line.toList)
    (hwrites : Text.Writes [line] stdin) (input : List UInt8) :
    let text := Text.trim line
    let r := (((session config).exec text).run (provider disk o config)).1
    let given := run disk input words
    let piped := run disk stdin others
    given.code = r.exitCode ∧ piped.code = 0
      ∧ (text = "" → piped.stdout = "" ∧ r.exitCode = 0 ∧ (o.json = false → given.stdout = ""))
      ∧ (Session.calls "clear" text = true →
        piped.stdout = "\x1b[2J\x1b[H" ∧ (o.json = false → given.stdout = ""))
      ∧ (text ≠ "" → Session.calls "clear" text = false → piped.stdout = r.output ++ "\n"
        ∧ (o.json = false → given.stdout = if r.output = "" then "" else piped.stdout))
      ∧ (o.json = true → ∃ document, given.stdout = document ++ "\n"
        ∧ (∀ c ∈ document.toList, ¬ c.toNat < 0x20)
        ∧ Json.parse? document = some (.record [(some "exitCode", .number (toString r.exitCode)),
          (some "output", .text r.output)])) := by
  intro text r given piped
  have hsession : session quiet = session config := by rw [session, session, htree]
  have hprovider : provider disk p quiet = provider disk o config := by
    rw [provider, provider, hroot]
  have hreport : given = reportOutcome o.json r := run_given hgiven hline hconfig input
  have hrun : piped = { stdout :=
      if text = "" then ""
      else if Session.calls "clear" text then ScreenEvent.clearSequence
      else r.output ++ "\n" } := by
    have hrun := run_piped hpiped hnone hquiet hbanner hecho hfeed hwrites
    rw [hsession, hprovider] at hrun
    simp only [piped, text, r]
    exact hrun
  have hcode : r.exitCode = 0 ∨ r.exitCode = 1 :=
    (Session.exec_does (provider disk o config) (session config) text).exitCode.1
  have hblank : text = "" → r = .silent := by
    intro hblank
    simp only [r, hblank, Session.exec_blank]
    rfl
  have hclear : Session.calls "clear" text = true →
      r = { Outcome.silent with effect := .clear } := by
    intro hclear
    simp only [r, Session.exec_of_calls_clear (session config) hclear]
    rfl
  have hne : Session.calls "clear" text = true → text ≠ "" :=
    fun hclear hblank => absurd (hblank ▸ hclear) (by decide)
  -- Nothing more has to be known of the outcome.
  clear_value r text given piped
  subst hreport hrun
  have hplain : o.json = false →
      (reportOutcome o.json r).stdout = if r.output = "" then "" else r.output ++ "\n" := by
    intro hjson
    rw [hjson, reportOutcome_text]
  refine ⟨rfl, rfl, fun htext => ?blank, fun hwipe => ?wipe, fun htext hwipe => ?other,
    fun hjson => ?data⟩
  case blank =>
    have hr := hblank htext
    exact ⟨if_pos htext, by rw [hr]; rfl, fun hjson => by rw [hplain hjson, hr]; rfl⟩
  case wipe =>
    have hr := hclear hwipe
    exact ⟨by rw [if_neg (hne hwipe), if_pos hwipe]; rfl,
      fun hjson => by rw [hplain hjson, hr]; rfl⟩
  case other =>
    have hwipe' : ¬ Session.calls "clear" text = true := Bool.eq_false_iff.mp hwipe
    rw [if_neg htext, if_neg hwipe']
    exact ⟨rfl, hplain⟩
  case data =>
    rw [hjson]
    exact reportOutcome_data hcode

/-- A line with blanks around it, and with quotation marks and a tab in the answer,
    given for data and piped, with a file that turns the echo off. -/
theorem given_as_piped_quiet :
    let disk : Disk := fun path =>
      if path = "quiet.toml" then .ok "echo_input = false" else .error .notFound
    let line := " echo a\tb \"c\" "
    let o : Options := { command := some line, configPath := some "quiet.toml", json := true }
    let p : Options := { configPath := some "quiet.toml", noBanner := true }
    let words := ["--config", "quiet.toml", "--json", "-c=" ++ line]
    let others := ["--config", "quiet.toml", "--no-banner"]
    let stdin := Text.toBytes line
    parse words = .run o ∧ parse others = .run p ∧ Text.Writes [line] stdin
      ∧ (∃ quiet, configFor disk p = .ok quiet ∧ quiet.echoInput = false)
      ∧ (run disk stdin others).stdout = "a\tb \"c\"\n"
      ∧ ∃ (r : Outcome) (document : String), (run disk stdin others).stdout = r.output ++ "\n"
        ∧ (run disk [] words).code = r.exitCode
        ∧ (run disk [] words).stdout = document ++ "\n"
        ∧ Json.parse? document = some (.record [(some "exitCode", .number (toString r.exitCode)),
          (some "output", .text r.output)]) := by
  intro disk line o p words others stdin
  have hgiven : parse words = .run o := by decide +kernel
  have hpiped : parse others = .run p := by decide +kernel
  have hfeed : '\n' ∉ line.toList := by decide
  have hwrites : Text.Writes [line] stdin := .unended line
  have hecho : ((configFor disk p).toOption.map (fun c => c.echoInput)) = some false := by
    decide +kernel
  have hshown : (run disk stdin others).stdout = "a\tb \"c\"\n" := by decide +kernel
  cases hquiet : configFor disk p with
  | error cause =>
    rw [hquiet] at hecho
    exact absurd hecho (Option.some_ne_none false).symm
  | ok quiet =>
    rw [hquiet] at hecho
    have hoff : quiet.echoInput = false := Option.some.inj hecho
    rcases given_as_piped hgiven rfl hquiet hpiped rfl hquiet rfl hoff rfl rfl hfeed hwrites []
      with ⟨hcode, -, -, -, hother, hdata⟩
    rcases hdata rfl with ⟨document, hwritten, -, hread⟩
    exact ⟨hgiven, hpiped, hwrites, ⟨quiet, rfl, hoff⟩, hshown, _, document,
      (hother (by decide) (by decide)).1, hcode, hwritten, hread⟩

end CommandLine

end StrataShell
