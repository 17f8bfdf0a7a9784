/-!
# Outcomes of Commands

What a finished command hands back: a text, an exit code, and what it asks the
surroundings of the shell to do. Only two commands ask for anything, and a
command that failed never does.

## Main definitions

* `Effect`: What a command asks of the surroundings.
* `Outcome`: Text, exit code and effect.
-/

namespace StrataShell

/-- What a command asks of the surroundings of the shell. -/
inductive Effect
  | none
  /-- Wipe what has been shown so far. -/
  | clear
  /-- Take no further input. -/
  | quit
  deriving DecidableEq

/-- What a finished command hands back. -/
structure Outcome where
  output : String
  /-- The exit code, zero for success. -/
  exitCode : Nat := 0
  effect : Effect := .none
  deriving DecidableEq

namespace Outcome

/-- Success with a text. -/
def success (output : String) : Outcome :=
  { output := output }

/-- Failure with a text that tells the cause. -/
def failure (message : String) : Outcome :=
  { output := message, exitCode := 1 }

/-- Success without a text. -/
def silent : Outcome :=
  success ""

@[simp] theorem success_exitCode (output : String) : (success output).exitCode = 0 := rfl

@[simp] theorem success_effect (output : String) : (success output).effect = .none := rfl

@[simp] theorem failure_exitCode (message : String) : (failure message).exitCode = 1 := rfl

@[simp] theorem failure_effect (message : String) : (failure message).effect = .none := rfl

end Outcome

end StrataShell
