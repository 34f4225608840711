import Weaver.Descriptor.Cursor
import Weaver.Error

/-!
# Listeners

A listener is a static method that is called when an event occurs.  Without a signature of its own
it takes what the dispatch routine takes; with one it must return nothing and take a first part of
the routine's parameters.
-/

namespace Weaver

/-- A static method that listens to an event or handles a redirected call. -/
structure Listener where
  owner : String
  name : String
  signature : Option Signature
  deriving DecidableEq, Inhabited

namespace Listener

/-- A listener without a signature, whose owner may be spelled with dots. -/
def ofNames (owner name : String) : Listener := ⟨Text.slashed owner, name, none⟩

/-- Read a listener that is written as its owner, a dot and its name; the last dot counts. -/
def parse (text : String) : Except Error Listener :=
  let reversed := text.toList.reverse
  let name := String.ofList (reversed.takeWhile (· ≠ '.')).reverse
  match reversed.dropWhile (· ≠ '.') with
  | [] => .error (.configuration (.listenerForm text))
  | _ :: owner =>
      if owner.isEmpty || name.isEmpty then .error (.configuration (.listenerForm text))
      else .ok (.ofNames (String.ofList owner.reverse) name)

/-- The listener with the signature of a descriptor. -/
def withSignature (listener : Listener) (descriptor : String) : Except Error Listener :=
  match Signature.parse descriptor with
  | .error fault => .error (.malformedDescriptor fault)
  | .ok signature => .ok { listener with signature }

/-- The text of a listener. -/
def text (listener : Listener) : String :=
  listener.owner ++ "." ++ listener.name ++ (listener.signature.map Signature.text).getD ""

/-- The signature by which a routine of the given signature calls the listener, if it fits. -/
def resolve? (listener : Listener) (routine : Signature) : Option Signature :=
  match listener.signature with
  | none => some ⟨routine.params, .void⟩
  | some own => if own.ret = .void ∧ own.params <+: routine.params then some own else none

end Listener

end Weaver
