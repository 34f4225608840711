import Weaver.Code.Run
import Weaver.Diagnostic
import Weaver.Dispatch.Routine

/-!
# Bodies of dispatch routines

`Routine.generate` makes the body of a routine from the listeners that its events have at that time.
Every listener that accepts the signature of the routine gets a guarded call, in the order of events
and then of registration; a cancellable routine asks the wrapper after each call and stops as soon
as it was cancelled.  A listener that does not fit is left out with a warning.
-/

namespace Weaver.Routine

/-- The label at the end of a routine. -/
def done : Label := ⟨0⟩

/-- The events of a routine with their listeners, in the order of their calls. -/
def listeners (routine : Routine) (store : EventStore) : List (Event × Listener) :=
  routine.eventIds.flatMap fun id =>
    let event := store.get id
    event.listeners.map (event, ·)

/-- The wrapper that a routine takes as its first parameter. -/
def wrapper (routine : Routine) : Wrapper :=
  ((routine.signature.params.head?.bind Ty.castName?).bind Wrapper.ofClassName?).getD .plain

/-- The guarded call of a listener by a signature that it accepts. -/
def guardedCall (event : Event) (listener : Listener) (signature : Signature) : GuardedCall :=
  { target := .ofNames listener.owner listener.name signature
    context := event.name
    onMissingClass := Dispatch.onMissingClass
    onMissingMethod := Dispatch.onMissingMethod }

/-- Go to the end of the routine if the wrapper was cancelled. -/
def stopIfCancelled (routine : Routine) : List Instr :=
  if routine.cancellable then
    [.load .reference 0, .call .virtual routine.wrapper.isCancelled, .jump .ifNonZero done]
  else []

/-- The code for one listener, none if it does not fit. -/
def callOf (routine : Routine) (entry : Event × Listener) : List Instr :=
  match entry.2.resolve? routine.signature with
  | none => []
  | some signature =>
      Run.loadArgs signature 0 ++ [.guardedCall (guardedCall entry.1 entry.2 signature)] ++
        routine.stopIfCancelled

/-- The warning for a listener that does not fit. -/
def warningFor? (routine : Routine) (entry : Event × Listener) : Option Diagnostic :=
  match entry.2.resolve? routine.signature with
  | some _ => none
  | none =>
      some
        { severity := .warning
          category := .dispatch
          message :=
            s!"Listener {entry.2.text} does not accept {routine.signature.text}, skipped"
          method := routine.target
          event := entry.1.name
          site := routine.site }

/-- Whether the routine branches to its end. -/
def branches (routine : Routine) (entries : List (Event × Listener)) : Bool :=
  routine.cancellable && entries.any fun entry => (entry.2.resolve? routine.signature).isSome

/-- The code of a routine that calls the given listeners. -/
def instrs (routine : Routine) (entries : List (Event × Listener)) : List Instr :=
  entries.flatMap routine.callOf ++
    (if routine.branches entries then [.label done] else []) ++ [.ret none]

/-- The body of a routine, and the warnings for the listeners that were left out. -/
def generate (routine : Routine) (store : EventStore) : Except Error Body × List Diagnostic :=
  let entries := routine.listeners store
  let warnings := entries.filterMap routine.warningFor?
  match Run.ofList (routine.instrs entries) with
  | .error fault => (.error (.synthesis routine.text (.dispatch fault)), warnings)
  | .ok run =>
      let body := Body.ofNames routine.proxyClass routine.name routine.signature .generated
      (.ok { body with code := body.code.replace run.instrs, maxStack := run.peak }, warnings)

end Weaver.Routine
