import Weaver.Dispatch.Body
import Weaver.Proofs.Machine.Completion
import Weaver.Proofs.Machine.Wrappers

/-!
# What a dispatch is to do

`dispatch` says for a list of events and listeners what the routine for them is to do: one listener
after the other is called or reported as missing, and nothing more is done once the wrapper was
cancelled.  The instructions of the routine only show in their count.
-/

namespace Weaver

namespace Listener

/-- The listener takes what a routine passes on: it has no signature of its own, or a void one with a
first part of the parameters of the routine. -/
def Accepts (listener : Listener) (routine : Signature) : Prop :=
  ∀ own, listener.signature = some own → own.ret = .void ∧ own.params <+: routine.params

/-- The parameters that the listener takes. -/
def taken (listener : Listener) (routine : Signature) : List Ty :=
  (listener.signature.map Signature.params).getD routine.params

/-- The method that the listener stands for. -/
def target (listener : Listener) (routine : Signature) : MethodRef :=
  .ofNames listener.owner listener.name ⟨listener.taken routine, .void⟩

instance (listener : Listener) (routine : Signature) : Decidable (listener.Accepts routine) :=
  match known : listener.signature with
  | none =>
      isTrue (by
        intro own ownEq
        cases known.symm.trans ownEq)
  | some own =>
      decidable_of_iff (own.ret = .void ∧ own.params <+: routine.params) (by
        constructor
        · intro fits found foundEq
          cases known.symm.trans foundEq
          exact fits
        · intro accepts
          exact accepts own known)

/-- A listener is called by its own signature or by that of the routine, if it accepts it. -/
theorem resolve?_eq (listener : Listener) (routine : Signature) :
    listener.resolve? routine =
      if listener.Accepts routine then some ⟨listener.taken routine, .void⟩ else none := by
  unfold resolve? taken
  cases known : listener.signature with
  | none =>
      have accepts : listener.Accepts routine := by
        intro own ownEq
        cases known.symm.trans ownEq
      rw [if_pos accepts]
      rfl
  | some own =>
      by_cases fits : own.ret = .void ∧ own.params <+: routine.params
      · have accepts : listener.Accepts routine := by
          intro found foundEq
          cases known.symm.trans foundEq
          exact fits
        have whole : own = ⟨own.params, .void⟩ := by rw [← fits.1]
        rw [if_pos accepts]
        exact (if_pos fits).trans (congrArg some whole)
      · have refuses : ¬ listener.Accepts routine := fun accepts => fits (accepts own known)
        rw [if_neg refuses]
        exact if_neg fits

theorem Accepts.taken_isPrefix {listener : Listener} {routine : Signature}
    (accepts : listener.Accepts routine) : listener.taken routine <+: routine.params := by
  unfold taken
  cases known : listener.signature with
  | none => exact List.prefix_refl _
  | some own => exact (accepts own known).2

theorem Accepts.totalSlots_le {listener : Listener} {routine : Signature}
    (accepts : listener.Accepts routine) :
    ((listener.taken routine).map Ty.slots).sum ≤ routine.totalSlots := by
  obtain ⟨others, paramsEq⟩ := accepts.taken_isPrefix
  rw [Signature.totalSlots_eq_sum, ← paramsEq, List.map_append, List.sum_append]
  exact Nat.le_add_right _ _

end Listener

namespace Machine

/-- The method, if the program has it, returns no value, whatever it is called with. -/
def Quiet (program : Program) (behaviour : Behaviour) (method : MethodRef) : Prop :=
  program.hasClass method.owner = true → program.resolve? method ≠ none →
    ∀ args world value, (behaviour method args world).1 ≠ .ok (some value)

/-- The world after a missing listener was reported: one entry in the trace and one error in the log,
both with the event, the class and the method. -/
def World.reported (world : World) (fallback missing event owner name : String) : World :=
  { world with
    trace := world.trace.push s!"{fallback}({event}, {owner}, {name})"
    log :=
      world.log.push
        { severity := .error
          category := .runtime
          message := s!"Listener {missing} missing: {owner}.{name}"
          event } }

/-- Report a missing listener, with its event, class and method as new strings. -/
def reportMissing (fallback missing : String) (event : Event) (target : MethodRef) (world : World) :
    Outcome Unit :=
  Outcome.bind (world.allocStrings [event.name, target.owner, target.name]) fun _ world =>
    (.ok (), world.reported fallback missing event.name target.owner target.name)

/-- Call a listener with as many arguments as it takes, or report it if its class or its method is
missing. -/
def process (program : Program) (behaviour : Behaviour) (routine : Signature) (args : List Value)
    (pair : Event × Listener) (world : World) : Outcome Unit :=
  let target := pair.2.target routine
  if program.hasClass target.owner = false then
    reportMissing Dispatch.missingClassName "class" pair.1 target world
  else if program.resolve? target = none then
    reportMissing Dispatch.missingMethodName "method" pair.1 target world
  else
    Outcome.bind (behaviour target (args.take (pair.2.taken routine).length) world)
      fun _ world => (.ok (), world)

/-- Ask a wrapper whether it was cancelled, by two instructions, and branch on it by one. -/
def askCancelled (limits : Limits) (wrapper : Value) (world : World) : Outcome Bool :=
  Outcome.bind (world.spend limits 2) fun _ world =>
    Outcome.bind (world.heap.isCancelled wrapper, world) fun cancelled world =>
      Outcome.bind (world.spend limits 1) fun _ world => (.ok cancelled, world)

/-- Return, behind the label that a routine branches to if it may be cancelled. -/
def close (limits : Limits) (branches : Bool) (world : World) : CallResult :=
  Outcome.bind (world.spend limits (if branches then 2 else 1)) fun _ world => (.ok none, world)

/-- Process pairs of events and listeners one after the other, for a routine of a signature.  Where
listeners may cancel, stop after the first pair after which the wrapper, the first argument, is
cancelled. -/
def dispatch (interpreter : Interpreter) (behaviour : Behaviour) (signature : Signature)
    (cancellable branches : Bool) (wrapper : Value) (args : List Value) :
    List (Event × Listener) → World → CallResult
  | [], world => close interpreter.limits branches world
  | pair :: rest, world =>
      Outcome.bind (world.spend interpreter.limits ((pair.2.taken signature).length + 1))
        fun _ world =>
      Outcome.bind (process interpreter.program behaviour signature (wrapper :: args) pair world)
        fun _ world =>
      if cancellable then
        Outcome.bind (askCancelled interpreter.limits wrapper world) fun cancelled world =>
          if cancelled then close interpreter.limits branches world
          else dispatch interpreter behaviour signature cancellable branches wrapper args rest world
      else dispatch interpreter behaviour signature cancellable branches wrapper args rest world

end Machine

end Weaver
