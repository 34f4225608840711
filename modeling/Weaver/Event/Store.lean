import Weaver.Event.Basic
import Weaver.Text.Name

/-!
# The store of events

The store holds every event that was ever created, and a handle is a position in it.  The registry
maps the names of the events that were defined to their handles, and counts the definitions for the
order of the events.  Other events can be kept in the store without being registered.
-/

namespace Weaver

/-- The handle of an event. -/
structure EventId where
  index : Nat
  deriving DecidableEq, Repr, Inhabited

/-- The map of names to handles, and the counter for the order of events. -/
structure EventRegistry where
  /-- The handle for each name, whose ASCII letters are in lower case. -/
  entries : List (String × EventId)
  /-- The order of the next event.  It is counted with 64 bits, so that memory ends before it. -/
  nextOrder : Nat

/-- Add a handle for a name that has none, and count it. -/
def EventRegistry.add (registry : EventRegistry) (key : String) (id : EventId) : EventRegistry :=
  ⟨registry.entries ++ [(key, id)], registry.nextOrder + 1⟩

/-- All events, and which of them are registered. -/
structure EventStore where
  events : Array Event
  registry : EventRegistry

namespace EventStore

/-- The store of the given events, which are registered in this order. -/
def ofList (events : List Event) : EventStore :=
  ⟨events.toArray, events.mapIdx fun index event => (event.key, ⟨index⟩), events.length⟩

/-- The store without events. -/
def empty : EventStore := ofList []

/-- The handles of the registered events, in the order of their definition. -/
def registered (store : EventStore) : List EventId := store.registry.entries.map Prod.snd

/-- The event of a handle. -/
def get? (store : EventStore) (id : EventId) : Option Event := store.events[id.index]?

/-- The event of a handle, and an event without a name for a handle of another store. -/
def get (store : EventStore) (id : EventId) : Event := (store.get? id).getD default

/-- Put another state of an event in the place of its present one. -/
def put (store : EventStore) (id : EventId) (event : Event) : EventStore :=
  { store with events := store.events.setIfInBounds id.index event }

/-- An event that is put where it is leaves the store. -/
theorem put_get (store : EventStore) (id : EventId) : store.put id (store.get id) = store := by
  obtain ⟨events, registry⟩ := store
  simp only [put, get, get?, mk.injEq, and_true]
  apply Array.ext_getElem?
  intro position
  rw [Array.getElem?_setIfInBounds]
  split
  · next here =>
      subst here
      split
      · next inside => simp [inside]
      · next beyond => simp [Nat.le_of_not_lt beyond]
  · rfl

/-- Keep an event that is not registered. -/
def keep (store : EventStore) (event : Event) : EventId × EventStore :=
  (⟨store.events.size⟩, { store with events := store.events.push event })

/-- The registered event of a name, whatever the case of its ASCII letters. -/
def find? (store : EventStore) (name : String) : Option EventId :=
  store.registry.entries.lookup (Text.folded name)

/-- Whether a handle is that of a registered event. -/
def owns (store : EventStore) (id : EventId) : Bool := store.find? (store.get id).name = some id

/-- Define an event, or find the one that was defined by that name and flag before. -/
def define (store : EventStore) (name : String) (cancellable : Bool) (priority : Int) :
    Except Error EventId × EventStore :=
  if Text.isBlank name then (.error (.configuration .blankEventName), store)
  else
    match store.find? name with
    | some id =>
        let existing := (store.get id).cancellable
        if existing = cancellable then (.ok id, store)
        else (.error (.duplicateEvent name existing cancellable), store)
    | none =>
        let order := store.registry.nextOrder
        let (id, kept) := store.keep (.ofName name cancellable priority order)
        (.ok id, { kept with registry := kept.registry.add (Text.folded name) id })

/-- Put handles into the order of their events. -/
def sort (store : EventStore) (ids : List EventId) : List EventId :=
  ids.mergeSort fun a b => (store.get a).le (store.get b)

/-- The registered events, in order. -/
def sorted (store : EventStore) : List EventId := store.sort store.registered

end EventStore

end Weaver
