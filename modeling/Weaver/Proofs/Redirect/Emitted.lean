import Weaver.Proofs.Dispatch.Emitted
import Weaver.Proofs.Machine.Arguments
import Weaver.Redirect.Apply

/-!
# The code of a redirection

The code for one handler starts and ends with an empty stack, so that the code for any number of
handlers is emitted, and its peak covers the arguments and the result.  A redirection therefore
succeeds whenever a handler fits, and what it leaves of the body depends on its kind only.
-/

namespace Weaver

open Run

theorem Body.totalSlots_handlerSignature (body : Body) :
    (Redirect.handlerSignature body).totalSlots = body.firstArgSlot + body.signature.totalSlots := by
  rw [Signature.totalSlots_eq_sum, Signature.totalSlots_eq_sum, Redirect.handlerSignature,
    Body.firstArgSlot]
  cases body.isStatic with
  | true => exact (Nat.zero_add _).symm
  | false => rfl

/-- A method that is redirected has few arguments, as a target names it. -/
theorem Redirect.totalSlots_le {registry : RedirectRegistry} {order : List Epoch} {body : Body}
    {redirect : Redirect} (found : registry.find? order body = some redirect) :
    (handlerSignature body).totalSlots ≤ 1 + Signature.maxParameterSlots := by
  rw [RedirectRegistry.find?] at found
  have named := List.find?_some found
  rw [body.totalSlots_handlerSignature]
  exact Nat.add_le_add (Bool.toNat_le _) (Target.totalSlots_le_of_names named)

/-- What a method takes is what its handlers take. -/
theorem Machine.Takes.kinds_handlerSignature {body : Body} {args : List Machine.Value}
    (takes : Machine.Takes body args) :
    (Redirect.handlerSignature body).params.map Ty.kind? =
      args.map fun value => some value.kind := by
  rw [takes, Redirect.handlerSignature, Body.argumentKinds, List.map_append]
  cases body.isStatic <;> rfl

/-- Instructions that discard what is on the stack are emitted. -/
theorem Run.Builder.emitAll_pops (builder : Builder) {count : Nat}
    (depthEq : builder.depth = count) (counted : count ≤ slotLimit) :
    ∃ next : Builder, builder.emitAll (List.replicate count .pop) = (.ok (), next) ∧
      next.depth = 0 ∧ builder.peak ≤ next.peak ∧ next.peak ≤ max builder.peak count := by
  induction count generalizing builder with
  | zero => exact ⟨builder, rfl, depthEq, Nat.le_refl _, Nat.le_max_left _ _⟩
  | succ count ih =>
      have unlabelled : Instr.pop.definition? = none := rfl
      have holds : Instr.pop.effect.pops ≤ builder.depth := by
        rw [depthEq]
        exact Nat.succ_pos count
      obtain ⟨popped, first, poppedDepth, poppedPeak⟩ :=
        builder.emitAll_singleton unlabelled holds
      have left : popped.depth = count := by
        rw [poppedDepth, depthEq]
        exact Effect.after_eq (Nat.le_of_succ_le counted)
      obtain ⟨last, second, lastDepth, lastPeak, lastLe⟩ :=
        ih popped left (Nat.le_of_succ_le counted)
      refine ⟨last, emitAll_append first second, lastDepth, ?_, ?_⟩
      · omega
      · omega

namespace Redirect

/-- The stack has room for the arguments of a handler and for its result. -/
structure HasRoom (signature : Signature) (room : Nat) : Prop where
  arguments : signature.totalSlots ≤ room
  result : signature.ret.slots ≤ room

theorem HasRoom.mono {signature : Signature} {room more : Nat} (hasRoom : HasRoom signature room)
    (le : room ≤ more) : HasRoom signature more :=
  ⟨Nat.le_trans hasRoom.arguments le, Nat.le_trans hasRoom.result le⟩

/-- The slots that handlers take or leave. -/
def needs (signature : Signature) : Nat := max signature.totalSlots signature.ret.slots

variable {signature : Signature} {builder : Builder} {handler : MethodRef}
  {handlers : List MethodRef}

/-- The call of a handler is emitted and leaves its result. -/
theorem emitAll_callOf (empty : builder.depth = 0) (narrow : signature.totalSlots ≤ slotLimit)
    (signatureEq : handler.signature = signature) :
    ∃ next, builder.emitAll (callOf signature handler) = (.ok (), next) ∧
      next.depth = signature.ret.slots ∧ builder.peak ≤ next.peak ∧
      HasRoom signature next.peak ∧ next.peak ≤ max builder.peak (needs signature) := by
  obtain ⟨loaded, first, loadedDepth, loadedPeak⟩ :=
    Builder.emitAll_loads (signature.parameterSlots 0) (by rw [empty]; exact Nat.zero_le _)
      (by rw [empty, Signature.sum_parameterSlots, Nat.zero_add]; exact narrow)
  rw [Signature.sum_parameterSlots, empty, Nat.zero_add] at loadedDepth
  have calls : (Instr.call .static handler).definition? = none := rfl
  have pops : (Instr.call .static handler).effect.pops = loaded.depth := by
    have sizeEq : signature.argsSize = signature.totalSlots := Nat.min_eq_left narrow
    rw [loadedDepth, ← sizeEq]
    simp only [Instr.effect, Instr.callPops, signatureEq]
    exact addSlots_of_le signature.argsSize_le
  obtain ⟨called, second, calledDepth, calledPeak⟩ :=
    loaded.emitAll_singleton calls (Nat.le_of_eq pops)
  have leaves : called.depth = signature.ret.slots := by
    have pushes : (Instr.call .static handler).effect.pushes = signature.ret.slots :=
      congrArg (fun signature : Signature => signature.ret.slots) signatureEq
    rw [calledDepth, Effect.after, Effect.slotsAfter, pops, pushes, Nat.sub_self, Nat.zero_add]
    exact wrapSlots_of_le (signature.ret.slots_le_two.trans (by decide))
  refine ⟨called, Builder.emitAll_append first second, leaves, by omega, ⟨?_, ?_⟩, ?_⟩
  · omega
  · omega
  · unfold needs
    omega

theorem discardResult_eq (ret : Ty) : discardResult ret = List.replicate ret.slots .pop := by
  unfold discardResult Ty.slots
  cases ret.kind? <;> rfl

/-- The calls of handlers whose results are discarded are emitted. -/
theorem emitAll_prependInstrs (empty : builder.depth = 0)
    (narrow : signature.totalSlots ≤ slotLimit)
    (signatures : ∀ handler ∈ handlers, handler.signature = signature) :
    ∃ next, builder.emitAll (prependInstrs signature handlers) = (.ok (), next) ∧
      next.depth = 0 ∧ builder.peak ≤ next.peak ∧
      (handlers ≠ [] → HasRoom signature next.peak) ∧
      next.peak ≤ max builder.peak (needs signature) := by
  induction handlers generalizing builder with
  | nil =>
      exact ⟨builder, rfl, empty, Nat.le_refl _, fun nonempty => absurd rfl nonempty,
        Nat.le_max_left _ _⟩
  | cons handler rest ih =>
      obtain ⟨called, first, calledDepth, calledPeak, hasRoom, calledLe⟩ :=
        emitAll_callOf empty narrow (signatures handler List.mem_cons_self)
      obtain ⟨discarded, second, discardedDepth, discardedPeak, discardedLe⟩ :=
        called.emitAll_pops calledDepth (signature.ret.slots_le_two.trans (by decide))
      rw [← discardResult_eq] at second
      obtain ⟨last, third, lastDepth, lastPeak, _, lastLe⟩ := ih discardedDepth
        fun other member => signatures other (List.mem_cons_of_mem _ member)
      have result : signature.ret.slots ≤ needs signature := Nat.le_max_right _ _
      refine ⟨last, Builder.emitAll_append (Builder.emitAll_append first second) third, lastDepth,
        by omega, fun _ => hasRoom.mono (by omega), by omega⟩

theorem replaceInstrs_concat (signature : Signature) (front : List MethodRef)
    (final : MethodRef) :
    replaceInstrs signature (front ++ [final]) =
      prependInstrs signature front ++ callOf signature final ++ [.ret signature.ret.kind?] := by
  simp [replaceInstrs]

/-- The calls of handlers the last of which gives the result are emitted. -/
theorem emitAll_replaceInstrs (empty : builder.depth = 0)
    (narrow : signature.totalSlots ≤ slotLimit)
    (signatures : ∀ handler ∈ handlers, handler.signature = signature) (nonempty : handlers ≠ []) :
    ∃ next, builder.emitAll (replaceInstrs signature handlers) = (.ok (), next) ∧
      HasRoom signature next.peak := by
  obtain ⟨front, final, rfl⟩ := (List.eq_nil_or_concat' handlers).resolve_left nonempty
  obtain ⟨before, first, beforeDepth, beforePeak, _⟩ := emitAll_prependInstrs empty narrow
    fun handler member => signatures handler (List.mem_append_left _ member)
  obtain ⟨called, second, calledDepth, calledPeak, hasRoom, _⟩ := emitAll_callOf beforeDepth narrow
    (signatures final (List.mem_append_right _ List.mem_cons_self))
  have unlabelled : (Instr.ret signature.ret.kind?).definition? = none := rfl
  have holds : (Instr.ret signature.ret.kind?).effect.pops ≤ called.depth :=
    Nat.le_of_eq calledDepth.symm
  obtain ⟨last, third, _, lastPeak⟩ := called.emitAll_singleton unlabelled holds
  refine ⟨last, ?_, hasRoom.mono (by omega)⟩
  rw [replaceInstrs_concat]
  exact Builder.emitAll_append (Builder.emitAll_append first second) third

/-- The run of a redirection to any handlers that take the same. -/
theorem exists_run (kind : RedirectKind) (narrow : signature.totalSlots ≤ slotLimit)
    (signatures : ∀ handler ∈ handlers, handler.signature = signature) (nonempty : handlers ≠ []) :
    ∃ run, Run.ofList (instrs kind signature handlers) = .ok run ∧ HasRoom signature run.peak ∧
      (kind = .prepend → run.peak ≤ needs signature) := by
  have empty : Builder.empty.depth = 0 := rfl
  have emits : ∃ next, Builder.empty.emitAll (instrs kind signature handlers) = (.ok (), next) ∧
      HasRoom signature next.peak ∧ (kind = .prepend → next.peak ≤ needs signature) := by
    cases kind with
    | replace =>
        obtain ⟨next, emitted, hasRoom⟩ := emitAll_replaceInstrs empty narrow signatures nonempty
        exact ⟨next, emitted, hasRoom, by rintro ⟨⟩⟩
    | prepend =>
        obtain ⟨next, emitted, _, _, hasRoom, peakLe⟩ :=
          emitAll_prependInstrs empty narrow signatures
        exact ⟨next, emitted, hasRoom nonempty, fun _ => Nat.zero_max (needs signature) ▸ peakLe⟩
  obtain ⟨next, emitted, hasRoom, peakLe⟩ := emits
  exact ⟨⟨next.emitted.toList, next.peak⟩, by rw [Run.ofList, emitted], hasRoom, peakLe⟩

/-- The instructions of a body that a redirection of a kind keeps. -/
def kept (kind : RedirectKind) (body : Body) : List Instr :=
  match kind with
  | .replace => []
  | .prepend => body.code.instrs

/-- A body whose calls go to handlers. -/
structure Redirects (kind : RedirectKind) (body : Body) (handlers : List MethodRef)
    (redirected : Body) : Prop where
  ref_eq : redirected.ref = body.ref
  access_eq : redirected.access = body.access
  locals_eq : redirected.maxLocals = body.maxLocals
  instrs_eq : redirected.code.instrs =
    instrs kind (handlerSignature body) handlers ++ kept kind body
  hasRoom : HasRoom (handlerSignature body) redirected.maxStack
  stack_le : kind = .prepend → body.maxStack ≤ redirected.maxStack
  stack_le_max : kind = .prepend →
    redirected.maxStack ≤ max body.maxStack (needs (handlerSignature body))

theorem redirects_of_place {kind : RedirectKind} {body : Body} {run : Run}
    (runEq : run.instrs = instrs kind (handlerSignature body) handlers)
    (hasRoom : HasRoom (handlerSignature body) run.peak)
    (peakLe : kind = .prepend → run.peak ≤ needs (handlerSignature body)) :
    ∃ redirected, place kind body run = .ok redirected ∧
      Redirects kind body handlers redirected := by
  cases kind with
  | replace =>
      refine ⟨_, rfl, rfl, rfl, rfl, ?_, hasRoom, by rintro ⟨⟩, by rintro ⟨⟩⟩
      exact runEq.trans (List.append_nil _).symm
  | prepend =>
      refine ⟨_, rfl, rfl, rfl, rfl, ?_, ?_, fun _ => Nat.le_max_left _ _, ?_⟩
      · rw [← runEq]
        rfl
      · exact hasRoom.mono (Nat.le_max_right _ _)
      · have peak := peakLe rfl
        exact fun _ => Nat.max_le.mpr
          ⟨Nat.le_max_left _ _, Nat.le_trans peak (Nat.le_max_right _ _)⟩

theorem signature_of_mem_bound {redirect : Redirect} {body : Body}
    (member : handler ∈ redirect.bound body) : handler.signature = handlerSignature body := by
  obtain ⟨listener, _, rfl⟩ := List.mem_map.mp member
  rfl

/-- A redirection one of whose handlers fits succeeds. -/
theorem apply_eq_ok {redirect : Redirect} {body : Body} (fits : redirect.bound body ≠ [])
    (narrow : (handlerSignature body).totalSlots ≤ slotLimit) :
    ∃ redirected entries, redirect.apply body = (.ok (some redirected), entries) ∧
      Redirects redirect.kind body (redirect.bound body) redirected := by
  have signatures : ∀ handler ∈ redirect.bound body, handler.signature = handlerSignature body :=
    fun _ => signature_of_mem_bound
  obtain ⟨run, emitted, hasRoom, peakLe⟩ := exists_run redirect.kind narrow signatures fits
  obtain ⟨redirected, placed, redirects⟩ :=
    redirects_of_place (Run.instrs_of_ofList emitted) hasRoom peakLe
  refine ⟨redirected, redirect.warnings body ++
    [report redirect.kind body (redirect.bound body).length], ?_, redirects⟩
  unfold apply
  cases handlersEq : redirect.bound body with
  | nil => exact absurd handlersEq fits
  | cons first rest =>
      rw [handlersEq] at emitted
      simp only [withHandlers, emitted, placed]

end Redirect

end Weaver
