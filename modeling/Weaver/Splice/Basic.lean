import Weaver.Body.Depth
import Weaver.Error
import Weaver.Splice.Run

/-!
# Injection into a body

`Splice.apply` puts the run of an injection before one instruction of a body.  The instruction must
be reachable; the declared stack grows to the depth there plus the peak of the run, and the declared
locals by the slot of the wrapper, which lies above everything that the body uses.
-/

namespace Weaver.Splice

/-- What was inserted into a body. -/
structure Report where
  index : Nat
  /-- The number of instructions of the run. -/
  inserted : Nat
  /-- The operand depth at the site. -/
  depth : Nat
  /-- The slot of the wrapper, if it is kept. -/
  wrapperLocal : Option Nat
  deriving DecidableEq

/-- The slot for the wrapper: the first above the declared locals and above those in use. -/
def wrapperLocal? (splice : Splice) (body : Body) : Option Nat :=
  if splice.cancellable then some (max body.maxLocals body.requiredMaxLocals) else none

/-- The locals that a body declares with the slot of the wrapper. -/
def grownLocals (body : Body) (slot? : Option Nat) : Nat :=
  match slot? with
  | some slot => slot + 1
  | none => body.maxLocals

/-- Put the run before the instruction at `index`, which starts at `depth`; `skip` is new. -/
def insertRun (splice : Splice) (body : Body) (index depth : Nat) (routine : MethodRef)
    (slot? : Option Nat) (skip : Label) : Except SynthesisFault Report × Body :=
  match Run.ofList (splice.instrs body.firstArgSlot routine slot? skip) with
  | .error fault => (.error (.run fault), body)
  | .ok run =>
      if slotLimit < depth + run.peak then (.error .stackExhausted, body)
      else
        match body.code.insert index run.instrs with
        | (.error fault, code) => (.error (.run fault), { body with code })
        | (.ok (), code) =>
            (.ok ⟨index, run.instrs.length, depth, slot?⟩,
              { body with
                code
                maxStack := max body.maxStack (depth + run.peak)
                maxLocals := grownLocals body slot? })

/-- The error that tells why a body was refused. -/
def refusal (body : Body) (fault : SynthesisFault) : Error := .synthesis body.text fault

/-- Put the run before the instruction at `index`.  A label is handed out for every run, and stays
handed out when what follows fails; in all else the body is then as before. -/
def apply (splice : Splice) (body : Body) (index : Nat) (routine : MethodRef) :
    Except Error Report × Body :=
  match body.stackDepths with
  | .error fault => (.error (refusal body (.analysis fault)), body)
  | .ok depths =>
      match depths[index]?.join with
      | none => (.error (refusal body (.unreachableSite index)), body)
      | some depth =>
          let slot? := splice.wrapperLocal? body
          if slotLimit < grownLocals body slot? then
            (.error (refusal body .localsExhausted), body)
          else
            match body.code.newLabel with
            | (.error fault, code) => (.error (refusal body (.run fault)), { body with code })
            | (.ok skip, code) =>
                match splice.insertRun { body with code } index depth routine slot? skip with
                | (.error fault, left) => (.error (refusal body fault), left)
                | (.ok report, injected) => (.ok report, injected)

end Weaver.Splice
