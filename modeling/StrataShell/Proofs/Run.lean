import StrataShell.Proofs.Dispatch

/-!
# Runs and Their Logs

A run is a list of actions on a session: lines of input and direct calls, in
any order. What an observer has of it is the log, which records for each action
the path at which it was taken and what was answered. Lines and calls can be
mixed, since a session cannot tell where a change came from.

As far as the file system goes, a run is a list of calls. An action is either a
call, or a line that makes at most one, and no other part of a session has any
say in what becomes of its file system. An invariant of the file system is
therefore settled by looking at one call, which is `after_induction`.

## Main definitions

* `Action`: A line of input, or a call.
* `Reply`: What an action is answered.
* `Reply.accepted`: The reply says that the action succeeded.
* `Session.act`: The reply to an action and the session after it.
* `Session.after`: The session after a run.
* `Session.log`: The log of a run.

## Theorems

* `act_fileSystem`: An action changes a file system as its call does.
* `accepted_cases`: The reply says whether a change was granted.
* `after_append`, `log_append`: A run can be cut in two.
* `after_induction`: What every call preserves holds after every run.
-/

namespace StrataShell

/-- A line of input, or a call. -/
inductive Action
  | line (text : String)
  | call (c : Call)
  deriving DecidableEq

/-- What an action is answered. -/
inductive Reply
  /-- The outcome of a line. -/
  | outcome (o : Outcome)
  /-- Success or refusal of a call that may change something. -/
  | done (result : Except FileSystem.Error Unit)
  | listing (text : String)
  | view (v : View)
  | text (result : Except Command.Error String)

/-- The reply says that the action succeeded. -/
def Reply.accepted : Reply → Bool
  | .outcome o => o.exitCode == 0
  | .done (.ok _) => true
  | .done (.error _) => false
  | .listing _ => true
  | .view _ => true
  | .text (.ok _) => true
  | .text (.error _) => false

/-- The call that an action makes, as far as it may change the file system. -/
def Action.call? : Action → Option Call
  | .line text => Call.ofWords? (Session.tokenize text)
  | .call c => some c

/-- An action with the path at which it was taken and the reply. -/
structure LogEntry where
  /-- The current path before the action. -/
  path : String
  action : Action
  reply : Reply

namespace Session

/-- What a call is answered. -/
def reply (provider : Option Content.Provider) (s : Session) (c : Call) : Reply :=
  match c with
  | .mkdir _ | .touch _ | .cd _ => .done ((s.fileSystem.answer c).map (fun _ => ()))
  | .ls => .listing s.fileSystem.ls
  | .view path => .view (s.fileSystem.view path)
  | .read name => .text ((s.fileText name).run provider)

/-- The reply to an action and the session after it. -/
def act (provider : Option Content.Provider) (s : Session) : Action → Reply × Session
  | .line text =>
    let result := (s.exec text).run provider
    (.outcome result.1, result.2)
  | .call c => (s.reply provider c, { s with fileSystem := s.fileSystem.afterCall c })

/-- The session after a run. -/
def after (provider : Option Content.Provider) (s : Session) (actions : List Action) : Session :=
  actions.foldl (fun t a => (t.act provider a).2) s

/-- What the log records of an action. -/
def entry (provider : Option Content.Provider) (s : Session) (a : Action) : LogEntry where
  path := s.fileSystem.cwd
  action := a
  reply := (s.act provider a).1

/-- The log of a run. -/
def log (provider : Option Content.Provider) (s : Session) : List Action → List LogEntry
  | [] => []
  | a :: rest => s.entry provider a :: log provider (s.act provider a).2 rest

@[simp] theorem after_nil (provider : Option Content.Provider) (s : Session) :
    s.after provider [] = s := rfl

@[simp] theorem after_cons (provider : Option Content.Provider) (s : Session) (a : Action)
    (rest : List Action) :
    s.after provider (a :: rest) = ((s.act provider a).2).after provider rest := rfl

theorem after_append (provider : Option Content.Provider) (s : Session)
    (first later : List Action) :
    s.after provider (first ++ later) = (s.after provider first).after provider later :=
  List.foldl_append

theorem log_append (provider : Option Content.Provider) (s : Session) (first later : List Action) :
    s.log provider (first ++ later)
      = s.log provider first ++ (s.after provider first).log provider later := by
  induction first generalizing s with
  | nil => rfl
  | cons a rest ih => rw [List.cons_append, log, log, ih, after_cons, List.cons_append]

/-- An action changes a file system as the call that it makes does, and not at
    all if it makes none. -/
theorem act_fileSystem (provider : Option Content.Provider) (s : Session) (a : Action) :
    (s.act provider a).2.fileSystem = (a.call?).elim s.fileSystem s.fileSystem.afterCall := by
  cases a with
  | call c => rfl
  | line text =>
    have h := exec_does provider s text
    exact h.fileSystem_eq

/-- The reply to an action that asks for a change says whether it was granted.
    Only for the attempt to go up from the root it may say either. -/
theorem accepted_cases (provider : Option Content.Provider) (s : Session) {a : Action} {c : Call}
    (hc : a.call? = some c) (hasks : c.asks = true) :
    ((∃ fs, s.fileSystem.answer c = .ok fs) ∧ (s.act provider a).1.accepted = true)
      ∨ ((∃ cause, s.fileSystem.answer c = .error cause)
        ∧ (s.act provider a).1.accepted = false)
      ∨ (c = .cd FileSystem.up ∧ s.fileSystem.place = []
        ∧ s.fileSystem.answer c = .error .alreadyAtRoot) := by
  cases a with
  | line text =>
    have h := exec_does provider s text
    simp only [act, Reply.accepted, beq_iff_eq, beq_eq_false_iff_ne]
    rcases h.call_cases hc with ⟨hok, hzero⟩ | ⟨herror, hone⟩ | hup
    · exact Or.inl ⟨hok, hzero⟩
    · exact Or.inr (Or.inl ⟨herror, hone ▸ Nat.one_ne_zero⟩)
    · exact Or.inr (Or.inr hup)
  | call c' =>
    rw [Action.call?, Option.some.injEq] at hc
    subst hc
    have hdone : (s.act provider (.call c')).1
        = .done ((s.fileSystem.answer c').map (fun _ => ())) := by
      cases c' <;> first | rfl | exact absurd hasks Bool.false_ne_true
    -- A direct call hands its result on as it is.
    rw [hdone]
    cases s.fileSystem.answer c' with
    | ok fs => exact Or.inl ⟨⟨fs, rfl⟩, rfl⟩
    | error cause => exact Or.inr (Or.inl ⟨⟨cause, rfl⟩, rfl⟩)

/-- What every call preserves holds after every run. -/
theorem after_induction {motive : FileSystem → Prop} (provider : Option Content.Provider)
    {s : Session} (hstart : motive s.fileSystem)
    (hstep : ∀ fs c, motive fs → motive (fs.afterCall c)) (actions : List Action) :
    motive (s.after provider actions).fileSystem := by
  induction actions generalizing s with
  | nil => exact hstart
  | cons a rest ih =>
    refine ih ?_
    rw [act_fileSystem]
    cases a.call? with
    | none => exact hstart
    | some c => exact hstep s.fileSystem c hstart

end Session

end StrataShell
