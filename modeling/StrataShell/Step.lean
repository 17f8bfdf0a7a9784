import StrataShell.Content.Provider

/-!
# Work That May Wait for a Content

A line of input is mostly answered at once. The exception is a file whose
content is deferred: then the answer waits for one content, and goes on when it
has come. `Step` is that choice as a value, so the shell itself never reads
anything: whoever runs it looks at the step, asks for the content if one is
wanted, and passes on what came.

This is also what makes the traffic with a provider a matter of data. Which
path is asked for, if any, can be read off the step before anyone is asked.

## Main definitions

* `Step`: A finished result, or a path to ask for and what follows.
* `map`: Do something with the result.
* `run`: Finish a step with the answers of a provider.
* `requests`: The paths that a step asks for.

## Theorems

* `run_map`: Finishing a changed step changes the finished one.
* `map_map`: One change after the other is one change.
-/

namespace StrataShell

/-- A finished result, or one path to ask for and what follows from the text
    that came or the reason why none came. -/
inductive Step (α : Type)
  | done (result : α)
  | fetch (path : String) (resume : Except Content.FetchError String → α)

namespace Step

variable {α β : Type}

/-- Do something with the result, once it is there. -/
def map (f : α → β) : Step α → Step β
  | .done result => .done (f result)
  | .fetch path resume => .fetch path (fun reply => f (resume reply))

/-- Finish a step with the answers of a provider, if there is one. -/
def run (provider : Option Content.Provider) : Step α → α
  | .done result => result
  | .fetch path resume => resume (Content.fetchText provider path)

/-- The paths that a step asks for: none or one. -/
def requests : Step α → List String
  | .done _ => []
  | .fetch path _ => [path]

/-- Finishing a changed step changes the finished one. -/
theorem run_map (provider : Option Content.Provider) (f : α → β) (s : Step α) :
    (s.map f).run provider = f (s.run provider) := by
  cases s <;> rfl

/-- One change after the other is one change. -/
theorem map_map {γ : Type} (f : α → β) (g : β → γ) (s : Step α) :
    (s.map f).map g = s.map (fun result => g (f result)) := by
  cases s <;> rfl

/-- Changing the result changes no request. -/
theorem requests_map (f : α → β) (s : Step α) : (s.map f).requests = s.requests := by
  cases s <;> rfl

end Step

end StrataShell
