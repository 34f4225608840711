import Weaver.Instr.Operand

/-!
# Event wrappers and missing listeners

A wrapper is the object that an injected run hands to the listeners of an event.  It carries the
name of the event and the receiver of the method, can be cancelled if the site allows it and, in
methods with a result, holds the value to return instead.

A guarded listener call falls back to a method of the support class when the class or the method of
the listener is missing.  Both fallback methods take the event, the owner and the name.
-/

namespace Weaver

/-- The class of a wrapper: without or with a value to return. -/
inductive Wrapper where
  | plain
  | returning
  deriving DecidableEq, Repr, Inhabited

/-- How an injected run reads the value to return: the method that it calls, the class that it casts
the result to and the kind that it returns. -/
structure ReturnAccessor where
  method : MethodRef
  cast : Option String
  kind : Kind
  deriving DecidableEq

namespace Wrapper

/-- The name of constructors. -/
def constructorName : String := "<init>"

/-- The name of the method that tells whether a wrapper was cancelled. -/
def isCancelledName : String := "isCancelled"

/-- The name of the method that cancels a wrapper. -/
def cancelName : String := "cancel"

/-- The name of the method that reads the value to return, before the tag of a primitive type. -/
def getReturnValueName : String := "getReturnValue"

/-- The name of the method that stores the value to return. -/
def setReturnValueName : String := "setReturnValue"

/-- The name of the class of a wrapper. -/
def className : Wrapper → String
  | .plain => "eventscope/event/EventInfo"
  | .returning => "eventscope/event/ReturnEventInfo"

/-- The wrapper whose class has the given name. -/
def ofClassName? (name : String) : Option Wrapper :=
  if name = className .plain then some .plain
  else if name = className .returning then some .returning
  else none

@[simp]
theorem ofClassName?_className (wrapper : Wrapper) :
    ofClassName? wrapper.className = some wrapper := by
  cases wrapper <;> decide

/-- The wrapper for methods with a result of the given type. -/
def forReturn (ret : Ty) : Wrapper := if ret.isVoid then .plain else .returning

/-- The type of a wrapper. -/
def type (wrapper : Wrapper) : Ty := .ofClass wrapper.className

/-- The constructor, which takes the name of the event, the receiver and whether listeners may
cancel. -/
def constructor (wrapper : Wrapper) : MethodRef :=
  .ofNames wrapper.className constructorName
    ⟨[.ofClass Ty.stringClass, .ofClass Ty.objectClass, .boolean], .void⟩

/-- The method that tells whether a wrapper was cancelled. -/
def isCancelled (wrapper : Wrapper) : MethodRef :=
  .ofNames wrapper.className isCancelledName ⟨[], .boolean⟩

/-- The method that cancels a wrapper. -/
def cancel (wrapper : Wrapper) : MethodRef :=
  .ofNames wrapper.className cancelName ⟨[], .void⟩

/-- The name of the method that reads a value of a primitive type. -/
def typedAccessorName? (ret : Ty) : Option String :=
  if ret.isVoid || ret.isReference then none else some (getReturnValueName ++ ret.text)

/-- The accessor for results of a type; void has none.  A reference is read as an object and cast,
unless it is declared as one. -/
def returnAccessor? (ret : Ty) : Option ReturnAccessor :=
  match ret.kind?, typedAccessorName? ret with
  | none, _ => none
  | some kind, some name =>
      some ⟨.ofNames (className .returning) name ⟨[], ret⟩, none, kind⟩
  | some kind, none =>
      some
        { method := .ofNames (className .returning) getReturnValueName
            ⟨[], .ofClass Ty.objectClass⟩
          cast := ret.castName?.filter (· ≠ Ty.objectClass)
          kind }

end Wrapper

namespace Dispatch

/-- The class of the fallback methods. -/
def supportClass : String := "eventscope/runtime/EventDiagnostics"

/-- The name of the fallback for a missing class. -/
def missingClassName : String := "onMissingClass"

/-- The name of the fallback for a missing method. -/
def missingMethodName : String := "onMissingMethod"

/-- A fallback method. -/
def fallback (name : String) : MethodRef :=
  .ofNames supportClass name ⟨List.replicate 3 (.ofClass Ty.stringClass), .void⟩

/-- The fallback for a missing class. -/
def onMissingClass : MethodRef := fallback missingClassName

/-- The fallback for a missing method. -/
def onMissingMethod : MethodRef := fallback missingMethodName

end Dispatch

end Weaver
