import Weaver.Event.Wrapper
import Weaver.Machine.Fault

/-!
# The heap

The heap holds the objects in the order of their allocation; a handle is a position, and nothing is
ever removed.  An object is a string, an event wrapper or a plain instance with named fields.
-/

namespace Weaver.Machine

/-- A table of values; a key that is not in it has no value yet. -/
abbrev Fields (κ : Type) := List (κ × Value)

/-- The table with a value for a key. -/
def Fields.assign {κ : Type} [BEq κ] (fields : Fields κ) (key : κ) (value : Value) : Fields κ :=
  (key, value) :: fields.filter fun entry => entry.1 != key

/-- The state of an event wrapper. -/
structure WrapperState where
  wrapper : Wrapper
  /-- The name of the event that the constructor got. -/
  name : String
  /-- The receiver that the constructor got, null for static methods. -/
  source : Value
  cancellable : Bool
  cancelled : Bool
  /-- The value to return, if a listener stored one. -/
  returnValue : Option Value
  deriving DecidableEq

namespace WrapperState

/-- A wrapper before its constructor ran. -/
def fresh (wrapper : Wrapper) : WrapperState := ⟨wrapper, "", .null, false, false, none⟩

/-- Cancel a wrapper, which must allow it. -/
def cancel (state : WrapperState) : Except Fault WrapperState :=
  if state.cancellable then .ok { state with cancelled := true }
  else .error (.notCancellable state.name)

end WrapperState

/-- An object on the heap. -/
inductive HeapObject where
  | string (value : String)
  | wrapper (state : WrapperState)
  | plain (className : String) (fields : Fields String)
  deriving DecidableEq

namespace HeapObject

/-- The name of the class of an object. -/
def className : HeapObject → String
  | .string _ => Ty.stringClass
  | .wrapper state => state.wrapper.className
  | .plain name _ => name

/-- The text of an object. -/
def text : HeapObject → String
  | .string value => Text.quote value
  | .wrapper state =>
      s!"{state.wrapper.className}({state.name}, cancelled={state.cancelled})"
  | .plain name _ => name

/-- A new object of a class: a wrapper for the wrapper classes, else an instance without fields. -/
def ofClass (name : String) : HeapObject :=
  match Wrapper.ofClassName? name with
  | some kind => .wrapper (.fresh kind)
  | none => .plain name []

end HeapObject

/-- The objects that were allocated, and how many there may be; a limit of zero is none. -/
structure Heap where
  objects : Array HeapObject
  limit : Nat
  deriving DecidableEq

namespace Heap

/-- The heap without objects. -/
def empty (limit : Nat) : Heap := ⟨#[], limit⟩

/-- Allocate an object.  There are never more handles than a 32-bit number can tell apart. -/
@[inline] def alloc (heap : Heap) (object : HeapObject) : Except Fault (Value × Heap) :=
  if 0 < heap.limit ∧ heap.limit ≤ heap.objects.size then .error (.heapLimit heap.limit)
  else if UInt32.size ≤ heap.objects.size then .error .heapExhausted
  else .ok (.ref ⟨heap.objects.size⟩, { heap with objects := heap.objects.push object })

/-- The object of a handle. -/
def get? (heap : Heap) (handle : Handle) : Option HeapObject := heap.objects[handle.id]?

/-- The object that a value refers to. -/
def deref? (heap : Heap) (value : Value) : Option HeapObject := value.handle?.bind heap.get?

/-- Put another state of an object in the place of its present one. -/
def put (heap : Heap) (handle : Handle) (object : HeapObject) : Heap :=
  { heap with objects := heap.objects.setIfInBounds handle.id object }

/-- The string that a value refers to. -/
def string? (heap : Heap) (value : Value) : Option String :=
  match heap.deref? value with
  | some (.string text) => some text
  | _ => none

/-- The wrapper that a value refers to, with its handle. -/
def wrapper (heap : Heap) (value : Value) : Except Fault (Handle × WrapperState) :=
  match value with
  | .ref handle =>
      match heap.get? handle with
      | some (.wrapper state) => .ok (handle, state)
      | _ => .error (.notWrapper value)
  | _ => .error (.notWrapper value)

/-- Change the wrapper that a value refers to. -/
def modifyWrapper (heap : Heap) (value : Value)
    (change : WrapperState → Except Fault WrapperState) : Except Fault Heap :=
  match heap.wrapper value with
  | .error fault => .error fault
  | .ok (handle, state) => (change state).map fun state => heap.put handle (.wrapper state)

/-- The name of the event of a wrapper. -/
def eventName (heap : Heap) (value : Value) : Except Fault String :=
  (heap.wrapper value).map fun (_, state) => state.name

/-- Whether a wrapper was cancelled. -/
def isCancelled (heap : Heap) (value : Value) : Except Fault Bool :=
  (heap.wrapper value).map fun (_, state) => state.cancelled

/-- Cancel a wrapper. -/
def cancel (heap : Heap) (value : Value) : Except Fault Heap :=
  heap.modifyWrapper value WrapperState.cancel

/-- Cancel a wrapper and store the value to return. -/
def cancelWith (heap : Heap) (value result : Value) : Except Fault Heap :=
  heap.modifyWrapper value fun state =>
    state.cancel.map fun state => { state with returnValue := some result }

/-- The wrappers on the heap, in the order of their allocation. -/
def wrappers (heap : Heap) : List WrapperState :=
  heap.objects.toList.filterMap fun
    | .wrapper state => some state
    | _ => none

/-- Check that a value may be used as an object of a class: null may, and all may be objects. -/
def checkCast (heap : Heap) (value : Value) (className : String) : Except Fault Unit :=
  match value.handle? with
  | none => .ok ()
  | some handle =>
      match heap.get? handle with
      | none => .error (.danglingReference handle)
      | some object =>
          if className = Ty.objectClass ∨ object.className = className then .ok ()
          else .error (.failedCast object.className className)

/-- The fields of a plain instance, with its handle and class. -/
def instance? (heap : Heap) (receiver : Value) :
    Except Fault (Handle × String × Fields String) :=
  match receiver with
  | .ref handle =>
      match heap.get? handle with
      | some (.plain className fields) => .ok (handle, className, fields)
      | _ => .error (.notInstance receiver)
  | _ => .error (.notInstance receiver)

end Heap

end Weaver.Machine
