import Mathlib.Data.List.DropRight
import StrataShell.Proofs.Run
import StrataShell.Proofs.Text.Blank
import StrataShell.Terminal

/-!
# What a Dialogue Leaves on the Screen

A terminal takes its lines one at a time and keeps a state between them: a line
may be passed over, the screen may be wiped, the input may end for good. This
module says in one piece what comes of a whole list of lines.

Two things are known from the lines alone. The lines that are run are those
with something in them, up to the first that quits. And since the words of a
line decide whether it quits or wipes, no outcome has to be known for it. What
the lines do to the session is then a run of the shell on them, and the screen
holds what was shown since the last wipe, behind the banner if there was none.

The proofs go by induction on the list of lines. The one fact about a single
line that they use is `submit_of_ne`: a line that is run is shown, and leaves
the terminal on unless it quits.

## Main definitions

* `Session.calls`: The first word of a line.
* `Session.exchanges`: Lines that are run one after another, with their
  outcomes.
* `Terminal.kept`: The lines that a terminal has to run.
* `Terminal.eventsOf`: What happens on the screen with an exchange.
* `Terminal.transcript`: What a screen holds after some exchanges.
* `Terminal.submissions`: What comes of each line.
* `Terminal.ranLines`: The lines that were run.

## Theorems

* `submitAll_fst`: The terminal after a dialogue.
* `submitAll_snd`: What happens on the screen.
* `buffer_submitAll`: What the screen holds in the end.
* `ranLines_eq_kept`: The lines that were run are those known beforehand.
* `dialogue_transcript`: All of it, for a dialogue that begins with a banner.
-/

namespace StrataShell

/-- A line that was run, with its outcome. -/
structure Exchange where
  line : String
  outcome : Outcome

namespace Session

/-- The first word of a line is the given one. -/
def calls (word line : String) : Bool :=
  (tokenize line).head? = some word

/-- Lines that are run one after another, with their outcomes. -/
def exchanges (provider : Option Content.Provider) (s : Session) : List String → List Exchange
  | [] => []
  | line :: rest =>
    let result := (s.exec line).run provider
    { line := line, outcome := result.1 } :: exchanges provider result.2 rest

-- The effects outside are known from the first word.
theorem effect_eq_quit_iff (provider : Option Content.Provider) (s : Session) (line : String) :
    ((s.exec line).run provider).1.effect = .quit ↔ calls "quit" line = true := by
  rw [calls, decide_eq_true_eq]
  exact (exec_does provider s line).effect.1

theorem effect_eq_clear_iff (provider : Option Content.Provider) (s : Session) (line : String) :
    ((s.exec line).run provider).1.effect = .clear ↔ calls "clear" line = true := by
  rw [calls, decide_eq_true_eq]
  exact (exec_does provider s line).effect.2

theorem after_line (provider : Option Content.Provider) (s : Session) (line : String)
    (rest : List Action) :
    s.after provider (.line line :: rest)
      = (((s.exec line).run provider).2).after provider rest := rfl

end Session

namespace Terminal

/-- The values up to and including the first one that stops, or all of them. -/
def upToFirst {α : Type} (stops : α → Bool) : List α → List α
  | [] => []
  | a :: rest => a :: if stops a then [] else upToFirst stops rest

/-- The lines that a terminal has to run: trimmed, without the blank ones, up to and
    including the first that quits. -/
def kept (lines : List String) : List String :=
  upToFirst (Session.calls "quit") ((lines.map Text.trim).filter (fun line => line ≠ ""))

/-- What is shown of an exchange: the line behind the prompt, if lines are
    echoed, and the answer. -/
def shownText (echo : Bool) (x : Exchange) : String :=
  (if echo then prompt ++ x.line ++ "\n" else "") ++ x.outcome.output ++ "\n"

/-- The exchange wiped the screen. -/
def wipes (x : Exchange) : Bool :=
  Session.calls "clear" x.line

/-- What happens on the screen with an exchange: a wipe, or the line behind the
    prompt, if lines are echoed, and the answer. -/
def eventsOf (echo : Bool) (x : Exchange) : List ScreenEvent :=
  if wipes x then [.clear]
  else (if echo then [.append (prompt ++ x.line ++ "\n")] else [])
    ++ [.append (x.outcome.output ++ "\n")]

/-- What a screen holds after some exchanges: what was shown of those since the
    last wipe, and what the screen held before if there was no wipe. -/
def transcript (before : String) (echo : Bool) (xs : List Exchange) : String :=
  (if xs.any wipes then "" else before)
    ++ String.join ((xs.rtakeWhile (fun x => !wipes x)).map (shownText echo))

/-- What comes of raw lines that are submitted one after another, line by
    line. -/
def submissions (provider : Option Content.Provider) (t : Terminal) :
    List String → List Submission
  | [] => []
  | raw :: rest =>
    let submission := (t.submit raw).run provider
    submission :: submissions provider submission.terminal rest

/-- The lines that were run, trimmed. -/
def ranLines (provider : Option Content.Provider) (t : Terminal) (lines : List String) :
    List String :=
  (lines.zip (t.submissions provider lines)).filterMap
    (fun x => if x.2.ran then some (Text.trim x.1) else none)

/-! ### The lines that are run -/

theorem kept_cons_of_blank {raw : String} (h : Text.trim raw = "") (rest : List String) :
    kept (raw :: rest) = kept rest := by
  simp [kept, h]

theorem kept_cons_of_ne {raw : String} (h : Text.trim raw ≠ "") (rest : List String) :
    kept (raw :: rest)
      = Text.trim raw :: if Session.calls "quit" (Text.trim raw) then [] else kept rest := by
  simp [kept, h, upToFirst]

-- A line that is run has something in it, and so a first word.
theorem tokenize_ne_nil_of_mem_kept {lines : List String} {line : String} (h : line ∈ kept lines) :
    Session.tokenize line ≠ [] := by
  induction lines with
  | nil => exact absurd h List.not_mem_nil
  | cons raw rest ih =>
    by_cases hraw : Text.trim raw = ""
    · rw [kept_cons_of_blank hraw] at h
      exact ih h
    · rw [kept_cons_of_ne hraw] at h
      rcases List.mem_cons.mp h with hline | hrest
      · rw [hline]
        exact Text.fields_trim_ne_nil hraw
      · by_cases hquit : Session.calls "quit" (Text.trim raw) = true
        · rw [if_pos hquit] at hrest
          exact absurd hrest List.not_mem_nil
        · rw [if_neg hquit] at hrest
          exact ih hrest

/-! ### One line -/

variable {provider : Option Content.Provider} {t : Terminal} {raw : String}

/-- A blank line, and any line once the input has ended, changes nothing. -/
theorem submit_of_blank_or_off (provider : Option Content.Provider)
    (h : Text.trim raw = "" ∨ t.enabled = false) :
    (t.submit raw).run provider = { ran := false, events := [], terminal := t } := by
  rw [submit, if_pos h]
  rfl

-- The input ends with a line that quits.
theorem after_exec (provider : Option Content.Provider) (line : String)
    (hon : t.enabled = true) (u : Session) :
    t.after ((t.session.exec line).run provider).1 u
      = { t with session := u, enabled := !Session.calls "quit" line } := by
  have hquit := Session.effect_eq_quit_iff provider t.session line
  cases hcalls : Session.calls "quit" line with
  | true =>
    have heffect := hquit.mpr hcalls
    simp only [after, hon, heffect, bne_self_eq_false, Bool.and_false, Bool.not_true]
  | false =>
    have heffect : ((t.session.exec line).run provider).1.effect ≠ .quit := by
      intro hc
      rw [hquit, hcalls] at hc
      exact Bool.false_ne_true hc
    simp only [after, hon, bne_iff_ne.mpr heffect, Bool.and_true, Bool.not_false]

/-- Any other line is run and shown, and the terminal goes on with the session
    after it. -/
theorem submit_of_ne (provider : Option Content.Provider) (hraw : Text.trim raw ≠ "")
    (hon : t.enabled = true) :
    (t.submit raw).run provider
      = { ran := true,
          events := t.shownFor (Text.trim raw)
            ((t.session.exec (Text.trim raw)).run provider).1,
          terminal := { t with
            session := ((t.session.exec (Text.trim raw)).run provider).2
            enabled := !Session.calls "quit" (Text.trim raw) } } := by
  have hgo : ¬ (Text.trim raw = "" ∨ t.enabled = false) := by
    rw [hon]
    exact not_or.mpr ⟨hraw, Bool.noConfusion⟩
  rw [submit, if_neg hgo, Step.run_map, after_exec provider _ hon]

/-- What a terminal shows of a line is settled by the line and its outcome. -/
theorem shownFor_eq (provider : Option Content.Provider) (t : Terminal) (line : String) :
    let outcome := ((t.session.exec line).run provider).1
    t.shownFor line outcome = eventsOf t.echoInput { line := line, outcome := outcome } := by
  intro outcome
  have hclear : outcome.effect = .clear ↔ Session.calls "clear" line = true :=
    Session.effect_eq_clear_iff provider t.session line
  rw [eventsOf, wipes, shownFor, echoed]
  cases heffect : outcome.effect with
  | clear => rw [if_pos (hclear.mp heffect)]
  | none | quit =>
    have hkeep : ¬ Session.calls "clear" line = true := by
      rw [← hclear, heffect]
      exact Effect.noConfusion
    rw [if_neg hkeep]

/-! ### All lines -/

theorem submitAll_cons (provider : Option Content.Provider) (t : Terminal) (raw : String)
    (rest : List String) :
    t.submitAll provider (raw :: rest)
      = ((((t.submit raw).run provider).terminal.submitAll provider rest).1,
        ((t.submit raw).run provider).events
          ++ (((t.submit raw).run provider).terminal.submitAll provider rest).2) := rfl

-- Once the input has ended, nothing happens any more.
theorem submitAll_of_off (provider : Option Content.Provider) (hoff : t.enabled = false)
    (lines : List String) : t.submitAll provider lines = (t, []) := by
  induction lines with
  | nil => rfl
  | cons raw rest ih =>
    rw [submitAll_cons, submit_of_blank_or_off provider (Or.inr hoff), ih, List.append_nil]

/-- The induction over a dialogue. A terminal that is on passes over a blank
    line, goes off after a line that quits, and goes on after any other. -/
@[elab_as_elim]
theorem dialogue_induction {motive : Terminal → List String → Prop}
    (provider : Option Content.Provider)
    (nil : ∀ t, t.enabled = true → motive t [])
    (blank : ∀ t raw rest, Text.trim raw = "" → motive t rest → motive t (raw :: rest))
    (quit : ∀ t raw rest, t.enabled = true → Text.trim raw ≠ "" →
      Session.calls "quit" (Text.trim raw) = true →
      ((t.submit raw).run provider).terminal.enabled = false → motive t (raw :: rest))
    (goOn : ∀ t raw rest, t.enabled = true → Text.trim raw ≠ "" →
      Session.calls "quit" (Text.trim raw) = false →
      motive ((t.submit raw).run provider).terminal rest → motive t (raw :: rest))
    (t : Terminal) (lines : List String) (hon : t.enabled = true) : motive t lines := by
  induction lines generalizing t with
  | nil => exact nil t hon
  | cons raw rest ih =>
    by_cases hraw : Text.trim raw = ""
    · exact blank t raw rest hraw (ih t hon)
    · have hnext : ((t.submit raw).run provider).terminal.enabled
          = !Session.calls "quit" (Text.trim raw) := by
        rw [submit_of_ne provider hraw hon]
      cases hquit : Session.calls "quit" (Text.trim raw) with
      | true => exact quit t raw rest hon hraw hquit (hnext.trans (by rw [hquit]; rfl))
      | false => exact goOn t raw rest hon hraw hquit (ih _ (hnext.trans (by rw [hquit]; rfl)))

/-- After a dialogue the session is the one after the lines that were run, and
    the input has ended if one of them quit. -/
theorem submitAll_fst (provider : Option Content.Provider) (hon : t.enabled = true)
    (lines : List String) :
    (t.submitAll provider lines).1 = { t with
      session := t.session.after provider ((kept lines).map .line)
      enabled := !(kept lines).any (Session.calls "quit") } := by
  refine dialogue_induction provider ?nil ?blank ?quit ?goOn t lines hon
  case nil =>
    intro t hon
    cases t
    cases hon
    rfl
  case blank =>
    intro t raw rest hraw ih
    rw [submitAll_cons, submit_of_blank_or_off provider (Or.inl hraw), kept_cons_of_blank hraw]
    exact ih
  case quit =>
    intro t raw rest hon hraw hquit hoff
    rw [submitAll_cons, submitAll_of_off provider hoff, submit_of_ne provider hraw hon,
      kept_cons_of_ne hraw, if_pos hquit, List.any_cons, List.any_nil, Bool.or_false,
      List.map_cons, Session.after_line, List.map_nil, Session.after_nil]
  case goOn =>
    intro t raw rest hon hraw hquit ih
    rw [submitAll_cons, ih, submit_of_ne provider hraw hon, kept_cons_of_ne hraw,
      if_neg (hquit ▸ Bool.false_ne_true), List.any_cons, hquit, Bool.false_or, List.map_cons,
      Session.after_line]

/-- What happens on the screen is what happens with the exchanges. -/
theorem submitAll_snd (provider : Option Content.Provider) (hon : t.enabled = true)
    (lines : List String) :
    (t.submitAll provider lines).2
      = (t.session.exchanges provider (kept lines)).flatMap (eventsOf t.echoInput) := by
  refine dialogue_induction provider ?nil ?blank ?quit ?goOn t lines hon
  case nil =>
    intro t _
    rfl
  case blank =>
    intro t raw rest hraw ih
    rw [submitAll_cons, submit_of_blank_or_off provider (Or.inl hraw), kept_cons_of_blank hraw]
    exact ih
  case quit =>
    intro t raw rest hon hraw hquit hoff
    rw [submitAll_cons, submitAll_of_off provider hoff, submit_of_ne provider hraw hon,
      kept_cons_of_ne hraw, if_pos hquit, List.append_nil, shownFor_eq, Session.exchanges,
      Session.exchanges, List.flatMap_singleton]
  case goOn =>
    intro t raw rest hon hraw hquit ih
    rw [submitAll_cons, ih, submit_of_ne provider hraw hon, kept_cons_of_ne hraw,
      if_neg (hquit ▸ Bool.false_ne_true), shownFor_eq, Session.exchanges, List.flatMap_cons]

/-! ### The screen -/

theorem transcript_nil (before : String) (echo : Bool) : transcript before echo [] = before := by
  simp [transcript]

theorem transcript_concat (before : String) (echo : Bool) (xs : List Exchange) (x : Exchange) :
    transcript before echo (xs ++ [x])
      = if wipes x then "" else transcript before echo xs ++ shownText echo x := by
  rw [transcript, List.rtakeWhile_concat]
  cases hx : wipes x with
  | true => simp [hx]
  | false => simp [hx, transcript, String.join_append, String.append_assoc]

/-- A screen can be followed exchange by exchange. -/
theorem transcript_eq_foldl (before : String) (echo : Bool) (xs : List Exchange) :
    transcript before echo xs
      = xs.foldl (fun text x => if wipes x then "" else text ++ shownText echo x) before := by
  induction xs using List.reverseRecOn with
  | nil => exact transcript_nil before echo
  | append_singleton xs x ih =>
    rw [transcript_concat, List.foldl_append, ← ih]
    rfl

theorem transcript_cons (before : String) (echo : Bool) (x : Exchange) (xs : List Exchange) :
    transcript before echo (x :: xs)
      = transcript (if wipes x then "" else before ++ shownText echo x) echo xs := by
  rw [transcript_eq_foldl, List.foldl_cons, ← transcript_eq_foldl]

-- What is shown comes to the end of the screen, unless it is a wipe.
theorem buffer_eventsOf (contents : String) (echo : Bool) (x : Exchange) :
    ScreenEvent.buffer contents (eventsOf echo x)
      = if wipes x then "" else contents ++ shownText echo x := by
  rw [eventsOf, shownText]
  split
  · rfl
  · cases echo <;> simp [ScreenEvent.buffer, ScreenEvent.onBuffer, String.append_assoc]

theorem buffer_flatMap (before : String) (echo : Bool) (xs : List Exchange) :
    ScreenEvent.buffer before (xs.flatMap (eventsOf echo)) = transcript before echo xs := by
  induction xs generalizing before with
  | nil => exact (transcript_nil before echo).symm
  | cons x rest ih =>
    rw [List.flatMap_cons, ScreenEvent.buffer_append, buffer_eventsOf, ih, transcript_cons]

theorem buffer_submitAll (provider : Option Content.Provider) (hon : t.enabled = true)
    (lines : List String) (before : String) :
    ScreenEvent.buffer before (t.submitAll provider lines).2
      = transcript before t.echoInput (t.session.exchanges provider (kept lines)) := by
  rw [submitAll_snd provider hon, buffer_flatMap]

/-! ### The answers -/

theorem length_submissions (provider : Option Content.Provider) (t : Terminal)
    (lines : List String) : (t.submissions provider lines).length = lines.length := by
  induction lines generalizing t with
  | nil => rfl
  | cons raw rest ih => rw [submissions, List.length_cons, List.length_cons, ih]

theorem submissions_append (provider : Option Content.Provider) (t : Terminal)
    (first later : List String) :
    t.submissions provider (first ++ later)
      = t.submissions provider first
        ++ (t.submitAll provider first).1.submissions provider later := by
  induction first generalizing t with
  | nil => rfl
  | cons raw rest ih => rw [List.cons_append, submissions, submissions, submitAll_cons, ih]; rfl

/-- What comes of the line at some place of a dialogue. -/
theorem submissions_getElem? (provider : Option Content.Provider) (t : Terminal)
    (before : List String) (raw : String) (rest : List String) :
    (t.submissions provider (before ++ raw :: rest))[before.length]?
      = some (((t.submitAll provider before).1.submit raw).run provider) := by
  rw [submissions_append, List.getElem?_append_right (length_submissions provider t before).le,
    length_submissions, Nat.sub_self, submissions, List.getElem?_cons_zero]

theorem ran_submit_iff (provider : Option Content.Provider) (t : Terminal) (raw : String) :
    ((t.submit raw).run provider).ran = true ↔ Text.trim raw ≠ "" ∧ t.enabled = true := by
  by_cases hraw : Text.trim raw = ""
  · simp [submit_of_blank_or_off provider (Or.inl hraw), hraw]
  · cases hon : t.enabled with
    | false => simp [submit_of_blank_or_off provider (Or.inr hon)]
    | true => simp [submit_of_ne provider hraw hon, hraw]

theorem ranLines_cons (provider : Option Content.Provider) (t : Terminal) (raw : String)
    (rest : List String) :
    t.ranLines provider (raw :: rest)
      = (if ((t.submit raw).run provider).ran then [Text.trim raw] else [])
        ++ ((t.submit raw).run provider).terminal.ranLines provider rest := by
  rw [ranLines, submissions, List.zip_cons_cons, List.filterMap_cons]
  cases ((t.submit raw).run provider).ran <;> rfl

theorem ranLines_of_off (provider : Option Content.Provider) (hoff : t.enabled = false)
    (lines : List String) : t.ranLines provider lines = [] := by
  induction lines with
  | nil => rfl
  | cons raw rest ih =>
    rw [ranLines_cons, submit_of_blank_or_off provider (Or.inr hoff), ih]
    rfl

/-- The lines that are run are those that are known beforehand. -/
theorem ranLines_eq_kept (provider : Option Content.Provider) (hon : t.enabled = true)
    (lines : List String) : t.ranLines provider lines = kept lines := by
  refine dialogue_induction provider ?nil ?blank ?quit ?goOn t lines hon
  case nil =>
    intro t _
    rfl
  case blank =>
    intro t raw rest hraw ih
    rw [ranLines_cons, submit_of_blank_or_off provider (Or.inl hraw), kept_cons_of_blank hraw]
    exact ih
  case quit =>
    intro t raw rest hon hraw hquit hoff
    rw [ranLines_cons, if_pos ((ran_submit_iff provider t raw).mpr ⟨hraw, hon⟩),
      ranLines_of_off provider hoff, kept_cons_of_ne hraw, if_pos hquit, List.append_nil]
  case goOn =>
    intro t raw rest hon hraw hquit ih
    rw [ranLines_cons, if_pos ((ran_submit_iff provider t raw).mpr ⟨hraw, hon⟩), ih,
      kept_cons_of_ne hraw, if_neg (hquit ▸ Bool.false_ne_true), List.singleton_append]

/-- A dialogue that begins with a banner. The lines with something in them are
    run, up to the first that quits, and no others. They all have a first word;
    the input has ended if one of them quits, and after that nothing happens any
    more. The session is the one after a run of these lines, and the screen holds
    what was shown of those since the last wipe, behind the banner if there was
    none. -/
theorem dialogue_transcript (provider : Option Content.Provider) (s : Session) (echo : Bool)
    (banner : String) (lines : List String) :
    let t : Terminal := { session := s, echoInput := echo }
    let result := t.submitAll provider lines
    t.ranLines provider lines = kept lines
    ∧ (∀ before raw rest, lines = before ++ raw :: rest →
        ∃ submission, (t.submissions provider lines)[before.length]? = some submission
          ∧ (submission.ran = true
            ↔ Text.trim raw ≠ "" ∧ ∀ line ∈ kept before, ¬ Session.calls "quit" line))
    ∧ (∀ line ∈ kept lines, Session.tokenize line ≠ [])
    ∧ (result.1.enabled = false ↔ ∃ line ∈ kept lines, Session.calls "quit" line)
    ∧ (result.1.enabled = false → ∀ raw,
        (result.1.submit raw).run provider
          = { ran := false, events := [], terminal := result.1 })
    ∧ result.1.session = s.after provider ((kept lines).map .line)
    ∧ ScreenEvent.buffer "" (.append banner :: result.2)
        = transcript banner echo (s.exchanges provider (kept lines)) := by
  intro t result
  have hfst : ∀ before, (t.submitAll provider before).1 = { t with
      session := s.after provider ((kept before).map .line)
      enabled := !(kept before).any (Session.calls "quit") } :=
    submitAll_fst provider rfl
  refine ⟨ranLines_eq_kept provider rfl lines, ?place, fun line => tokenize_ne_nil_of_mem_kept,
    ?ended, fun hoff raw => submit_of_blank_or_off provider (Or.inr hoff), ?session, ?screen⟩
  case place =>
    rintro before raw rest rfl
    refine ⟨_, submissions_getElem? provider t before raw rest, ?_⟩
    rw [ran_submit_iff, hfst before]
    simp
  case ended =>
    rw [hfst lines]
    simp
  case session =>
    rw [hfst lines]
  case screen =>
    have hbanner : ScreenEvent.buffer "" (.append banner :: result.2)
        = ScreenEvent.buffer banner result.2 := by
      simp [ScreenEvent.buffer, ScreenEvent.onBuffer]
    rw [hbanner]
    exact buffer_submitAll provider rfl lines banner

end Terminal

end StrataShell
