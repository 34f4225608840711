import Weaver.Event.Store

/-!
# Dispatch routines

A dispatch routine is the static method that an injected run calls.  It belongs to one site of one
method, takes the wrapper and the arguments of that method, and calls the listeners of its events.
The events are kept in increasing rank, one for each rank.
-/

namespace Weaver

/-- The number of a routine, in the order of allocation from 1 on.  It is counted with 32 bits: the
numbers are distinct while fewer than `2 ^ 32` routines have been allocated. -/
structure RoutineId where
  number : Nat
  deriving DecidableEq, Repr, Inhabited

/-- A method that calls the listeners of the events of one site. -/
structure Routine where
  id : RoutineId
  name : String
  proxyClass : String
  /-- The text of the method that the site is in. -/
  target : String
  site : Nat
  signature : Signature
  cancellable : Bool
  /-- The events with their ranks, in increasing order. -/
  events : List ((Int × Nat) × EventId)
  deriving DecidableEq, Inhabited

namespace Routine

/-- The signature of a routine: it takes the wrapper and the parameters of the method. -/
def signatureFor (wrapper : Wrapper) (body : Body) : Signature :=
  ⟨wrapper.type :: body.signature.params, .void⟩

/-- The reference by which an injected run calls the routine. -/
def ref (routine : Routine) : MethodRef :=
  .ofNames routine.proxyClass routine.name routine.signature

/-- The text of a routine, with its proxy class as it was chosen. -/
def text (routine : Routine) : String :=
  routine.proxyClass ++ "." ++ routine.name ++ routine.signature.text

/-- Put an event into a list of increasing rank, in the place of one that has the same rank. -/
def insertRanked (rank : Int × Nat) (id : EventId) :
    List ((Int × Nat) × EventId) → List ((Int × Nat) × EventId)
  | [] => [(rank, id)]
  | entry :: rest =>
      match Event.compareRank rank entry.1 with
      | .lt => (rank, id) :: entry :: rest
      | .eq => (rank, id) :: rest
      | .gt => entry :: insertRanked rank id rest

/-- Add an event to those whose listeners the routine calls. -/
def addEvent (routine : Routine) (store : EventStore) (id : EventId) : Routine :=
  { routine with events := insertRanked (store.get id).rank id routine.events }

/-- The events of a routine, in increasing rank. -/
def eventIds (routine : Routine) : List EventId := routine.events.map Prod.snd

end Routine

end Weaver
