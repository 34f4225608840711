import Weaver.Event.Wrapper
import Weaver.Machine.World

/-!
# Intrinsic methods

The methods that exist in every program: those of the event wrappers, and the two that report a
missing listener.
-/

namespace Weaver.Machine

/-- What a call comes to: a result, nothing for void methods, or a fault; and the world after it. -/
abbrev CallResult := Except Fault (Option Value) × World

namespace Intrinsic

/-- The text of an argument that is a string, and the empty text of any other. -/
def argText (world : World) (args : List Value) (index : Nat) : String :=
  (args[index]?.bind world.heap.string?).getD ""

/-- Report a missing listener: its event, class and name are the arguments. -/
def reportMissing (world : World) (name missing : String) (args : List Value) : World :=
  let event := argText world args 0
  let owner := argText world args 1
  let listener := argText world args 2
  { world with
    trace := world.trace.push s!"{name}({event}, {owner}, {listener})"
    log :=
      world.log.push
        { severity := .error
          category := .runtime
          message := s!"Listener {missing} missing: {owner}.{listener}"
          event } }

/-- Change a wrapper, with no result. -/
def change (world : World) (receiver : Value)
    (update : WrapperState → Except Fault WrapperState) : CallResult :=
  match world.heap.modifyWrapper receiver update with
  | .error fault => (.error fault, world)
  | .ok heap => (.ok none, { world with heap })

/-- Construct a wrapper from its receiver, the name of the event, the source and the flag that says
whether it can be cancelled. -/
def construct (world : World) (receiver name source cancellable : Value) : CallResult :=
  change world receiver fun state =>
    .ok
      { state with
        name := (world.heap.string? name).getD ""
        source
        cancellable := cancellable.bool?.getD false }

/-- The value that a wrapper gives for the result type of an accessor: what was stored, which must
be of the right kind, or else the zero value. -/
def returnValue (method : MethodRef) (stored : Option Value) : Except Fault Value :=
  match method.signature.ret.kind?, stored with
  | none, _ => .error (.returnsVoid method)
  | some kind, none => .ok (.zero kind)
  | some kind, some value =>
      if value.kind = kind then .ok value else .error (.overrideMismatch value method)

/-- Ask a wrapper, without a change. -/
def ask (world : World) (receiver : Value) (answer : WrapperState → Except Fault Value) :
    CallResult :=
  match world.heap.wrapper receiver with
  | .error fault => (.error fault, world)
  | .ok (_, state) => ((answer state).map some, world)

/-- The constructor of a wrapper class, when it is called with all of its arguments. -/
def constructor? (method : MethodRef) (args : List Value) (world : World) : Option CallResult :=
  match args with
  | [receiver, name, source, cancellable] =>
      if method.name = Wrapper.constructorName then
        some (construct world receiver name source cancellable)
      else none
  | _ => none

/-- A method of a wrapper that was constructed, if the class has one that fits. -/
def wrapperMethod? (method : MethodRef) (args : List Value) (world : World) : Option CallResult :=
  match args with
  | [] => none
  | receiver :: rest =>
      if method.name = Wrapper.isCancelledName then
        some (ask world receiver fun state => .ok (.ofBool state.cancelled))
      else if method.name = Wrapper.cancelName then
        some (change world receiver WrapperState.cancel)
      else if method.name = Wrapper.setReturnValueName ∧ rest.length = 1 then
        some (change world receiver fun state => .ok { state with returnValue := rest.head? })
      else if Wrapper.getReturnValueName.toList.isPrefixOf method.name.toList then
        some (ask world receiver fun state => returnValue method state.returnValue)
      else none

/-- A method of the support class, if it is one that reports a missing listener. -/
def supportMethod? (method : MethodRef) (args : List Value) (world : World) : Option CallResult :=
  if method.name = Dispatch.missingClassName then
    some (.ok none, reportMissing world method.name "class" args)
  else if method.name = Dispatch.missingMethodName then
    some (.ok none, reportMissing world method.name "method" args)
  else none

/-- The intrinsic method of a reference, if there is one. -/
def call? (method : MethodRef) (args : List Value) (world : World) : Option CallResult :=
  if method.owner = Dispatch.supportClass then supportMethod? method args world
  else if (Wrapper.ofClassName? method.owner).isSome then
    constructor? method args world <|> wrapperMethod? method args world
  else none

end Intrinsic

end Weaver.Machine
