import Weaver.Dispatch.Arena
import Weaver.Redirect.Apply
import Weaver.Site.Locator
import Weaver.Splice.Basic
import Weaver.Target.Registry

/-!
# The engine

The engine holds what a host registered, the dispatch routines and the log.  Operations that can
fail give a result or an error together with the engine as they leave it.
-/

namespace Weaver

/-- A registration: an event, the method it is injected into and how sites are found there. -/
structure Injection where
  event : EventId
  target : Target
  locator : Locator

/-- The state of the library. -/
structure Engine where
  settings : Settings
  events : EventStore
  targets : TargetRegistry
  injections : List Injection
  redirects : RedirectRegistry
  proxies : Arena
  log : Log

namespace Engine

/-- The engine of a host that has registered nothing yet; the settings are taken as they are. -/
def fresh (settings : Settings) : Engine :=
  { settings
    events := .empty
    targets := .empty
    injections := []
    redirects := .empty
    proxies := .ofSettings settings
    log := .empty }

/-- The engine of valid settings. -/
def ofSettings (settings : Settings) : Except Error Engine :=
  settings.validate.map fun _ => fresh settings

/-- Add entries to the log. -/
def note (engine : Engine) (entries : List Diagnostic) : Engine :=
  { engine with log := engine.log.append entries }

/-- Define an event by name. -/
def defineEvent (engine : Engine) (name : String) (cancellable : Bool) (priority : Int) :
    Except Error EventId × Engine :=
  let (result, events) := engine.events.define name cancellable priority
  (result, { engine with events })

/-- Check that an event is registered. -/
def ensureOwned (engine : Engine) (event : EventId) : Except Error Unit :=
  if engine.events.owns event then .ok ()
  else .error (.unknownEvent (engine.events.get event).name)

/-- Add a listener to an event. -/
def listen (engine : Engine) (event : EventId) (listener : Listener) : Engine :=
  { engine with
    events := engine.events.put event ((engine.events.get event).addListener listener) }

/-- Add a listener to a registered event. -/
def addListener (engine : Engine) (event : EventId) (listener : Listener) :
    Except Error Unit × Engine :=
  match engine.ensureOwned event with
  | .error error => (.error error, engine)
  | .ok () => (.ok (), engine.listen event listener)

/-- Register the injection of a registered event into a target. -/
def registerInjection (engine : Engine) (event : EventId) (target : Target) (locator : Locator) :
    Except Error Unit × Engine :=
  match engine.ensureOwned event with
  | .error error => (.error error, engine)
  | .ok () =>
      (.ok (),
        { engine with
          targets := engine.targets.register target
          injections := engine.injections ++ [⟨event, target, locator⟩] })

/-- Register a handler for a target.  The target is registered even if the handler is refused. -/
def registerRedirect (engine : Engine) (target : Target) (handler : Listener)
    (kind : RedirectKind) (earliest : Bool) : Except Error Unit × Engine :=
  let engine := { engine with targets := engine.targets.register target }
  match engine.redirects.register target handler kind earliest with
  | .error error => (.error error, engine)
  | .ok redirects => (.ok (), { engine with redirects })

/-- Redirect a body; whether it changed, and the body. -/
def redirect (engine : Engine) (body : Body) : Except Error Bool × Engine × Body :=
  match engine.redirects.find? engine.settings.epochOrder body with
  | none => (.ok false, engine, body)
  | some redirect =>
      match redirect.apply body with
      | (.error error, entries) => (.error error, engine.note entries, body)
      | (.ok none, entries) => (.ok false, engine.note entries, body)
      | (.ok (some redirected), entries) => (.ok true, engine.note entries, redirected)

/-- The proxy types with the bodies of all routines. -/
def generateProxies (engine : Engine) : Except Error (List GeneratedProxy) × Engine :=
  let (result, entries) := engine.proxies.generate engine.events
  (result, engine.note entries)

/-- The body of one routine. -/
def generateRoutine (engine : Engine) (id : RoutineId) : Except Error Body × Engine :=
  let (result, entries) := (engine.proxies.get id).generate engine.events
  (result, engine.note entries)

end Engine

end Weaver
