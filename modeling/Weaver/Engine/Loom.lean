import Weaver.Engine.Basic

/-!
# Injecting events

A loom holds what an injection works on: the events with their attachments, the arena of routines
and the body.  `Loom.inject` puts the run of one event at a site and allocates the routine that it
calls; `Loom.join` adds another event to a routine.  Both need the event to be attached.
-/

namespace Weaver

/-- What an injection works on. -/
structure Loom where
  events : EventStore
  proxies : Arena
  body : Body

namespace Loom

/-- Count an injection of an event. -/
def count (loom : Loom) (id : EventId) : Loom :=
  { loom with events := loom.events.put id (loom.events.get id).countInjection }

/-- Attach an event to the body. -/
def attach (loom : Loom) (id : EventId) : Except Error Unit × Loom :=
  let (result, event) := (loom.events.get id).attach loom.body
  (result, { loom with events := loom.events.put id event })

/-- Detach an event from the method it is attached to. -/
def detach (loom : Loom) (id : EventId) : Except Error Unit × Loom :=
  let (result, event) := (loom.events.get id).detach
  (result, { loom with events := loom.events.put id event })

section

variable {loom : Loom} {id : EventId} {attachment : Attachment}

theorem attach_of_idle (idle : (loom.events.get id).attachment = none) :
    loom.attach id = (.ok (), { loom with
      events := loom.events.put id
        { loom.events.get id with attachment := some (.ofBody loom.body) } }) := by
  rw [attach, Event.attach, idle]

/-- An event that is attached is refused, and nothing changes. -/
theorem attach_of_attached (attached : (loom.events.get id).attachment = some attachment) :
    loom.attach id =
      (.error (.eventAlreadyAttached (loom.events.get id).name attachment.method loom.body.text),
        loom) := by
  rw [attach, Event.attach, attached]
  exact congrArg (Prod.mk _) (congrArg (fun events => { loom with events }) (EventStore.put_get _ _))

theorem detach_of_attached (attached : (loom.events.get id).attachment = some attachment) :
    loom.detach id = (.ok (), { loom with
      events := loom.events.put id { loom.events.get id with attachment := none } }) := by
  rw [detach, Event.detach, attached]

/-- An event that is attached to nothing cannot be detached, and nothing changes. -/
theorem detach_of_idle (idle : (loom.events.get id).attachment = none) :
    loom.detach id = (.error (.eventNotAttached (loom.events.get id).name), loom) := by
  rw [detach, Event.detach, idle]
  exact congrArg (Prod.mk _) (congrArg (fun events => { loom with events }) (EventStore.put_get _ _))

end

/-- Detach those of several events that are attached. -/
def detachAll (loom : Loom) (ids : List EventId) : Loom :=
  ids.foldl (fun loom id => (loom.detach id).2) loom

/-- Attach several events to the body, `held` being those that were attached before.  If one is
refused, all that are held by then are detached again. -/
def attachAll (loom : Loom) (held : List EventId) : List EventId → Except Error Unit × Loom
  | [] => (.ok (), loom)
  | id :: rest =>
      match loom.attach id with
      | (.error error, loom) => (.error error, loom.detachAll held)
      | (.ok (), loom) => loom.attachAll (held ++ [id]) rest

/-- Detach several events that must be attached.  If one is not, the others are detached all the
same. -/
def release (loom : Loom) : List EventId → Except Error Unit × Loom
  | [] => (.ok (), loom)
  | id :: rest =>
      match loom.detach id with
      | (.error error, loom) => (.error error, loom.detachAll rest)
      | (.ok (), loom) => loom.release rest

/-- Allocate the routine of a site for its first event. -/
def allocate (loom : Loom) (id : EventId) (wrapper : Wrapper) (index : Nat) (cancellable : Bool) :
    RoutineId × Loom :=
  let (routine, proxies) := loom.proxies.allocate loom.body wrapper index cancellable
  (routine, { loom with proxies := proxies.put ((proxies.get routine).addEvent loom.events id) })

/-- Inject an event at a site.  If that fails the routine is discarded again. -/
def inject (loom : Loom) (id : EventId) (index : Nat) (cancellable : Bool) :
    Except Error RoutineId × Loom :=
  let event := loom.events.get id
  match event.attachedTo loom.body.text with
  | .error error => (.error error, loom)
  | .ok attachment =>
      let (routine, loom) := loom.allocate id attachment.wrapper index cancellable
      let splice : Splice := ⟨event.name, attachment, cancellable⟩
      match splice.apply loom.body index (loom.proxies.get routine).ref with
      | (.error error, body) =>
          (.error error, { loom with proxies := loom.proxies.discard routine, body })
      | (.ok _, body) => (.ok routine, { loom with body }.count id)

/-- Add an event to a routine of the method that it is attached to. -/
def join (loom : Loom) (routine : RoutineId) (id : EventId) : Except Error Unit × Loom :=
  let present := loom.proxies.get routine
  match (loom.events.get id).attachedTo present.target with
  | .error error => (.error error, loom)
  | .ok _ =>
      (.ok (), { loom with proxies := loom.proxies.put (present.addEvent loom.events id) }.count id)

section

variable {loom after : Loom} {id : EventId} {routine : RoutineId}

/-- An event that joins a routine is added to it and is counted. -/
theorem eq_of_join (joined : loom.join routine id = (.ok (), after)) :
    after =
      { loom with
        events := loom.events.put id (loom.events.get id).countInjection
        proxies := loom.proxies.put ((loom.proxies.get routine).addEvent loom.events id) } := by
  unfold join at joined
  dsimp only at joined
  split at joined
  · cases joined
  · cases joined
    rfl

/-- An event that is refused changes nothing. -/
theorem eq_of_join_error {error : Error} (refused : loom.join routine id = (.error error, after)) :
    after = loom := by
  unfold join at refused
  dsimp only at refused
  split at refused
  · cases refused
    rfl
  · cases refused

end

/-- Add several events to a routine, up to the first that is refused. -/
def joinAll (loom : Loom) (routine : RoutineId) : List EventId → Except Error Unit × Loom
  | [] => (.ok (), loom)
  | id :: rest =>
      match loom.join routine id with
      | (.error error, loom) => (.error error, loom)
      | (.ok (), loom) => loom.joinAll routine rest

end Loom

namespace Engine

/-- What an injection into a body works on. -/
def loom (engine : Engine) (body : Body) : Loom := ⟨engine.events, engine.proxies, body⟩

/-- The engine with the events and routines that an injection left. -/
def withLoom (engine : Engine) (loom : Loom) : Engine :=
  { engine with events := loom.events, proxies := loom.proxies }

/-- Attach an event to a body. -/
def attach (engine : Engine) (id : EventId) (body : Body) : Except Error Unit × Engine :=
  let (result, loom) := (engine.loom body).attach id
  (result, engine.withLoom loom)

/-- Detach an event. -/
def detach (engine : Engine) (id : EventId) : Except Error Unit × Engine :=
  let (result, loom) := (engine.loom default).detach id
  (result, engine.withLoom loom)

/-- Inject an event into a body at a site. -/
def inject (engine : Engine) (id : EventId) (body : Body) (index : Nat) (cancellable : Bool) :
    Except Error RoutineId × Engine × Body :=
  let (result, loom) := (engine.loom body).inject id index cancellable
  (result, engine.withLoom loom, loom.body)

/-- Add an event to the routine of a site. -/
def join (engine : Engine) (routine : RoutineId) (id : EventId) : Except Error Unit × Engine :=
  let (result, loom) := (engine.loom default).join routine id
  (result, engine.withLoom loom)

/-- Allocate a routine without events. -/
def allocate (engine : Engine) (wrapper : Wrapper) (body : Body) (site : Nat)
    (cancellable : Bool) : RoutineId × Engine :=
  let (routine, proxies) := engine.proxies.allocate body wrapper site cancellable
  (routine, { engine with proxies })

/-- Discard a routine. -/
def discard (engine : Engine) (routine : RoutineId) : Engine :=
  { engine with proxies := engine.proxies.discard routine }

/-- Add an event to a routine, whatever it is attached to. -/
def addEvent (engine : Engine) (routine : RoutineId) (id : EventId) : Engine :=
  { engine with
    proxies := engine.proxies.put ((engine.proxies.get routine).addEvent engine.events id) }

/-- Put code into a body as an attached event would, for a dispatch routine of the host's own. -/
def splice (engine : Engine) (id : EventId) (name : String) (cancellable : Bool) (body : Body)
    (index : Nat) (routine : MethodRef) : Except Error Splice.Report × Body :=
  let event := engine.events.get id
  match event.attachment with
  | none => (.error (.eventNotAttached event.name), body)
  | some attachment => Splice.apply ⟨name, attachment, cancellable⟩ body index routine

end Engine

end Weaver
