import Weaver.Event.Listener
import Weaver.Target.Basic

/-!
# Redirections

A redirection sends the calls of a target to a queue of handlers.  The first registration for a
target fixes the kind; a handler is kept once, and one that asks to be earliest goes to the front of
the queue as it is then.
-/

namespace Weaver

/-- The handlers of a target. -/
structure Redirect where
  target : Target
  kind : RedirectKind
  handlers : List Listener
  deriving DecidableEq

/-- Add a handler; one that is known stays where it is. -/
def Redirect.add (redirect : Redirect) (handler : Listener) (earliest : Bool) : Redirect :=
  if handler ∈ redirect.handlers then redirect
  else if earliest then { redirect with handlers := handler :: redirect.handlers }
  else { redirect with handlers := redirect.handlers ++ [handler] }

/-- The redirections, at most one for each target, in the order of their first registration. -/
structure RedirectRegistry where
  redirects : List Redirect
  deriving DecidableEq

namespace RedirectRegistry

/-- The registry without redirections. -/
def empty : RedirectRegistry := ⟨[]⟩

/-- The redirection of a target. -/
def get? (registry : RedirectRegistry) (target : Target) : Option Redirect :=
  registry.redirects.find? (·.target = target)

/-- Add a handler for a target, with the kind that the target has or gets by this. -/
def register (registry : RedirectRegistry) (target : Target) (handler : Listener)
    (kind : RedirectKind) (earliest : Bool) : Except Error RedirectRegistry :=
  match registry.get? target with
  | none => .ok ⟨registry.redirects ++ [⟨target, kind, [handler]⟩]⟩
  | some known =>
      if known.kind ≠ kind then
        .error (.configuration (.mixedRedirect target.text known.kind kind handler.text))
      else
        .ok ⟨registry.redirects.map fun redirect =>
          if redirect.target = target then redirect.add handler earliest else redirect⟩

/-- The first redirection whose target names a body. -/
def find? (registry : RedirectRegistry) (order : List Epoch) (body : Body) : Option Redirect :=
  registry.redirects.find? fun redirect => redirect.target.names order body

end RedirectRegistry

end Weaver
