import Weaver.Code.Run
import Weaver.Event.Basic

/-!
# The run of an injection

The code that is put at a site: it constructs the wrapper, hands it with the arguments of the method
to a dispatch routine and, where listeners may cancel, asks the wrapper whether to leave the method.
The wrapper is then kept in a local slot of its own.
-/

namespace Weaver

/-- What an injected run is made from. -/
structure Splice where
  /-- The name that the wrapper gets. -/
  event : String
  attachment : Attachment
  cancellable : Bool

namespace Splice

/-- The receiver of the method, or null where there is none. -/
def source (splice : Splice) : Instr :=
  if splice.attachment.isStatic then .const .null else .load .reference 0

/-- Construct the wrapper and leave it on the stack. -/
def construct (splice : Splice) : List Instr :=
  [ .new splice.attachment.wrapper.className,
    .dup,
    .const (.string splice.event),
    splice.source,
    .const (.int (if splice.cancellable then 1 else 0)),
    .call .special splice.attachment.wrapper.constructor ]

/-- Keep the wrapper in a local slot, and on the stack. -/
def keep (slot : Nat) : List Instr := [.store .reference slot, .load .reference slot]

/-- Call the dispatch routine with the wrapper on the stack and the arguments of the method. -/
def dispatch (splice : Splice) (firstArgSlot : Nat) (routine : MethodRef) : List Instr :=
  Run.loadArgs splice.attachment.signature firstArgSlot ++ [.call .static routine]

/-- Leave the method with the value that the wrapper holds. -/
def leave (returnType : Ty) (slot : Nat) : List Instr :=
  match Wrapper.returnAccessor? returnType with
  | none => [.ret none]
  | some accessor =>
      [.load .reference slot, .call .virtual accessor.method] ++
        accessor.cast.toList.map .checkCast ++ [.ret (some accessor.kind)]

/-- Leave the method if the wrapper was cancelled, and go on behind the label if it was not. -/
def check (splice : Splice) (slot : Nat) (skip : Label) : List Instr :=
  [ .load .reference slot,
    .call .virtual splice.attachment.wrapper.isCancelled,
    .jump .ifZero skip ] ++
    leave splice.attachment.returnType slot ++ [.label skip]

/-- The run, with the slot of the wrapper if it is kept. -/
def instrs (splice : Splice) (firstArgSlot : Nat) (routine : MethodRef) (slot? : Option Nat)
    (skip : Label) : List Instr :=
  match slot? with
  | none => splice.construct ++ splice.dispatch firstArgSlot routine
  | some slot =>
      splice.construct ++ keep slot ++ splice.dispatch firstArgSlot routine ++
        splice.check slot skip

end Splice

end Weaver
