import Weaver.Body.Basic
import Weaver.Event.Listener
import Weaver.Event.Wrapper

/-!
# Events

An event has a name, says whether listeners may cancel, and is ordered by priority and then by the
order in which events were created.  Two events are the same if their names agree without regard to
ASCII case.  While an event is being injected it is attached to one method, and the attachment holds
what the injected code is made from.
-/

namespace Weaver

/-- The method that an event is attached to. -/
structure Attachment where
  /-- The text of the method. -/
  method : String
  signature : Signature
  isStatic : Bool
  /-- The number of injections since the event was attached. -/
  injections : Nat
  deriving DecidableEq

namespace Attachment

/-- The attachment to a body, before any injection. -/
def ofBody (body : Body) : Attachment := ⟨body.text, body.signature, body.isStatic, 0⟩

/-- The type of the method's result. -/
def returnType (attachment : Attachment) : Ty := attachment.signature.ret

/-- The wrapper that is handed to listeners. -/
def wrapper (attachment : Attachment) : Wrapper := .forReturn attachment.returnType

/-- One more injection. -/
def count (attachment : Attachment) : Attachment :=
  { attachment with injections := attachment.injections + 1 }

end Attachment

/-- An event with its listeners and its attachment. -/
structure Event where
  name : String
  cancellable : Bool
  priority : Int
  /-- The position in the order of creation. -/
  order : Nat
  listeners : List Listener
  attachment : Option Attachment
  deriving DecidableEq, Inhabited

namespace Event

/-- An event without listeners that is attached to nothing. -/
def ofName (name : String) (cancellable : Bool) (priority : Int) (order : Nat) : Event :=
  ⟨name, cancellable, priority, order, [], none⟩

/-- The name by which events are told apart. -/
def key (event : Event) : String := Text.folded event.name

/-- Whether two events have the same name. -/
def same (a b : Event) : Bool := a.key = b.key

/-- The rank of an event: its priority, and then its place in the order of creation. -/
def rank (event : Event) : Int × Nat := (event.priority, event.order)

/-- The order of ranks. -/
def compareRank (a b : Int × Nat) : Ordering := (compare a.1 b.1).then (compare a.2 b.2)

/-- The order of events: the same event is equal, others go by rank and then by name. -/
def compare (a b : Event) : Ordering :=
  if a.same b then .eq
  else (compareRank a.rank b.rank).then (Ord.compare a.key b.key)

/-- Whether an event comes no later than another. -/
def le (a b : Event) : Bool := (a.compare b).isLE

/-- Add a listener; one that is known stays where it is. -/
def addListener (event : Event) (listener : Listener) : Event :=
  if listener ∈ event.listeners then event
  else { event with listeners := event.listeners ++ [listener] }

/-- Attach an event to a body.  It must not be attached to any method, not even to this one. -/
def attach (event : Event) (body : Body) : Except Error Unit × Event :=
  match event.attachment with
  | some current => (.error (.eventAlreadyAttached event.name current.method body.text), event)
  | none => (.ok (), { event with attachment := some (.ofBody body) })

/-- Detach an event from the method it is attached to. -/
def detach (event : Event) : Except Error Unit × Event :=
  match event.attachment with
  | some _ => (.ok (), { event with attachment := none })
  | none => (.error (.eventNotAttached event.name), event)

/-- The attachment of an event that is attached to the method of the given text. -/
def attachedTo (event : Event) (method : String) : Except Error Attachment :=
  match event.attachment with
  | some attachment =>
      if attachment.method = method then .ok attachment else .error (.eventNotAttached event.name)
  | none => .error (.eventNotAttached event.name)

/-- Count one more injection of an attached event. -/
def countInjection (event : Event) : Event :=
  { event with attachment := event.attachment.map Attachment.count }

end Event

end Weaver
