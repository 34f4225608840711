import Weaver.Proofs.Engine.Rollback
import Weaver.Proofs.Splice.Refusal

/-!
# What a failed injection leaves

An injection that fails leaves the events as they were, and the routine that it allocated does not live
any more.  The body is as it was, but for a label: it is handed out before the run is made, and stays
handed out if the run is refused or the stack would grow too high.
-/

namespace Weaver

/-- The dispatch call of an injection takes the wrapper and the arguments of the method, as many of
them as a call can take. -/
theorem Routine.Serves.effect_eq {routine : Routine} {body : Body} {wrapper : Wrapper} {site : Nat}
    {cancellable : Bool} (serves : routine.Serves body wrapper site cancellable) :
    (Instr.call .static routine.ref).effect = ⟨min (body.signature.totalSlots + 1) slotLimit, 0⟩ := by
  have signatureEq : routine.ref.signature = signatureFor wrapper body := serves.signature_eq
  have total : (signatureFor wrapper body).totalSlots = 1 + body.signature.totalSlots := rfl
  have pops : Instr.callPops (signatureFor wrapper body) false =
      min (body.signature.totalSlots + 1) slotLimit := by
    change min (min (signatureFor wrapper body).totalSlots slotLimit + 0) slotLimit = _
    rw [total, Nat.add_zero, Nat.add_comm, Nat.min_assoc, Nat.min_self]
  change (⟨Instr.callPops routine.ref.signature false, routine.ref.signature.ret.slots⟩ : Effect) = _
  rw [signatureEq, pops]
  rfl

theorem Routine.Serves.after_eq {routine : Routine} {body : Body} {wrapper : Wrapper} {site : Nat}
    {cancellable : Bool} (serves : routine.Serves body wrapper site cancellable) :
    (Instr.call .static routine.ref).effect.after (wrapSlots (body.signature.totalSlots + 1)) = 0 := by
  have taken : wrapSlots (body.signature.totalSlots + 1) ≤
      min (body.signature.totalSlots + 1) slotLimit :=
    Nat.le_min.mpr ⟨Nat.mod_le _ _, wrapSlots_le _⟩
  rw [serves.effect_eq, Effect.after, Effect.slotsAfter, Nat.sub_eq_zero_of_le taken]
  rfl

/-- Within the limit the dispatch call of an injection finds what it takes. -/
theorem Routine.Serves.slotLimit_lt {routine : Routine} {body : Body} {wrapper : Wrapper}
    {site : Nat} {cancellable : Bool} (serves : routine.Serves body wrapper site cancellable)
    (scarce : wrapSlots (body.signature.totalSlots + 1) <
      (Instr.call .static routine.ref).effect.pops) :
    slotLimit < body.signature.totalSlots + 1 := by
  rw [serves.effect_eq] at scarce
  by_contra fits
  rw [wrapSlots_of_le (Nat.not_lt.mp fits)] at scarce
  exact Nat.not_lt.mpr (Nat.min_le_left _ _) scarce

namespace Loom

variable {loom after : Loom} {id : EventId} {index : Nat} {cancellable : Bool} {error : Error}

/-- An injection fails because the event is not attached to the body, or because its run is
refused. -/
theorem refused_of_inject (failed : loom.inject id index cancellable = (.error error, after)) :
    (error = .eventNotAttached (loom.events.get id).name ∧ after = loom) ∨
      ∃ (attachment : Attachment) (added : Routine) (fault : SynthesisFault),
        (loom.events.get id).attachment = some attachment ∧
        added.Serves loom.body attachment.wrapper index cancellable ∧
        error = .synthesis loom.body.text fault ∧
        after.events = loom.events ∧
        Splice.Refusal ⟨(loom.events.get id).name, attachment, cancellable⟩ loom.body index
          added.ref fault after.body := by
  cases attached : (loom.events.get id).attachedTo loom.body.text with
  | error cause =>
      rw [inject, attached] at failed
      cases failed
      refine .inl ⟨?_, rfl⟩
      unfold Event.attachedTo at attached
      repeat' split at attached
      all_goals cases attached <;> rfl
  | ok attachment =>
      obtain ⟨added, proxies, _, serves, _, outcome⟩ :=
        @inject_eq loom id index cancellable attachment attached
      rw [outcome] at failed
      split at failed
      · rename_i refused
        cases failed
        obtain ⟨fault, errorEq, refusal⟩ := Splice.refusal_of_apply refused
        exact .inr ⟨attachment, added, fault, (Event.attachedTo_eq_ok_iff.mp attached).1, serves,
          errorEq, rfl, refusal⟩
      · cases failed

end Loom

namespace Engine

/-- What a failed injection leaves.  Putting code into a body leaves it as it was unless the run is
refused or the stack would grow too high; then the label that was handed out for the run is spent, and
nothing else is changed.  Injecting an event moreover leaves the events with their counts, and all
routines that live with what they hold; if the event is attached to the signature of the body, only the
height of the stack can spend a label, or parameters that cannot be counted with the wrapper. -/
theorem inject_refused (splice : Splice) (routine : MethodRef) (engine next : Engine) (id : EventId)
    (body after : Body) (index : Nat) (cancellable : Bool) (error : Error) :
    (splice.apply body index routine = (.error error, after) →
      ∃ fault, error = .synthesis body.text fault ∧
        splice.Refusal body index routine fault after ∧ body.LeftBy fault after ∧
        (after = body ↔ fault.spendsLabel = false)) ∧
    (engine.Reachable → engine.inject id body index cancellable = (.error error, next, after) →
      next = { engine with proxies := next.proxies } ∧
      next.proxies.live = engine.proxies.live ∧
      (∀ routine ∈ engine.proxies.live,
        next.proxies.get routine = engine.proxies.get routine) ∧
      ((error = .eventNotAttached (engine.events.get id).name ∧ after = body) ∨
        ∃ attachment fault, (engine.events.get id).attachment = some attachment ∧
          error = .synthesis body.text fault ∧ body.LeftBy fault after ∧
          (after = body ↔ fault.spendsLabel = false) ∧
          (attachment.signature = body.signature → fault.spendsLabel = true →
            fault = .stackExhausted ∨
              (slotLimit < body.signature.totalSlots + 1 ∧
                ∃ dispatch, fault = .run (.popsBelowRun (.call .static dispatch)
                  (wrapSlots (body.signature.totalSlots + 1))))))) := by
  constructor
  · intro failed
    obtain ⟨fault, errorEq, refusal⟩ := Splice.refusal_of_apply failed
    exact ⟨fault, errorEq, refusal, refusal.leftBy, refusal.leftBy.eq_iff⟩
  · intro reachable failed
    have sound := reachable.coherent.sound
    rcases injected : (engine.loom body).inject id index cancellable with ⟨result, loom⟩
    rw [inject, injected] at failed
    cases failed
    have grown := (Loom.invariant_grown sound [id]).inject List.mem_cons_self sound.grown_nil
      injected
    have liveEq : loom.proxies.live = engine.proxies.live :=
      grown.live_eq.trans (List.append_nil _)
    have kept : ∀ routine ∈ engine.proxies.live,
        loom.proxies.get routine = engine.proxies.get routine :=
      fun routine lives => grown.get_old routine (sound.known routine lives).2
    rcases Loom.refused_of_inject injected with
      ⟨errorEq, rfl⟩ | ⟨attachment, added, fault, attached, serves, errorEq, eventsEq, refusal⟩
    · exact ⟨rfl, liveEq, kept, .inl ⟨errorEq, rfl⟩⟩
    · refine ⟨?_, liveEq, kept, .inr ⟨attachment, fault, attached, errorEq, refusal.leftBy,
        refusal.leftBy.eq_iff, ?_⟩⟩
      · have same : loom.events = engine.events := eventsEq
        rw [withLoom, same]
      · intro sameSignature spends
        have supplyEq : Splice.supply ⟨(engine.events.get id).name, attachment, cancellable⟩ =
            wrapSlots (body.signature.totalSlots + 1) := by rw [Splice.supply, sameSignature]
        have left : (Instr.call .static added.ref).effect.after
            (wrapSlots (body.signature.totalSlots + 1)) = 0 := serves.after_eq
        have room : (Instr.call .static added.ref).effect.after
            (wrapSlots (body.signature.totalSlots + 1)) + 2 ≤ slotLimit := by
          rw [left]
          decide
        rw [← supplyEq] at room
        rcases refusal.eq_of_spendsLabel room spends with high | ⟨scarce, faultEq⟩
        · exact .inl high
        · rw [supplyEq] at scarce
          exact .inr ⟨serves.slotLimit_lt scarce, added.ref, supplyEq ▸ faultEq⟩

/-- A method that returns at once. -/
def returning : Body :=
  { Body.ofNames "a/B" "m" ⟨[], .void⟩ ⟨9⟩ with code := .ofList [.ret none] }

/-- Code for this method with an event of its own. -/
def returningSplice : Splice := ⟨"e", .ofBody returning, false⟩

/-- A dispatch routine that takes more than the wrapper. -/
def greedy : MethodRef := .ofNames "x/X" "m" ⟨List.replicate 6 .int, .void⟩

theorem apply_greedy :
    returningSplice.apply returning 0 greedy =
      (.error (.synthesis returning.text (.run (.popsBelowRun (.call .static greedy) 1))),
        (returningSplice.apply returning 0 greedy).2) ∧
    (returningSplice.apply returning 0 greedy).2.code.nextLabel = 1 := by
  constructor
  · exact Prod.ext (by cbv) rfl
  · cbv

/-- The label is spent on the routine that takes too much, and nothing is lost where there is no
site. -/
theorem inject_refused_returning :
    (returningSplice.apply returning 0 greedy).1 =
        .error (.synthesis returning.text (.run (.popsBelowRun (.call .static greedy) 1))) ∧
      (returningSplice.apply returning 0 greedy).2.code.instrs = [.ret none] ∧
      (returningSplice.apply returning 0 greedy).2.code.nextLabel = 1 ∧
      heldHost.Reachable ∧
      (heldHost.inject ⟨0⟩ default 0 false).1 =
        .error (.synthesis (default : Body).text (.unreachableSite 0)) ∧
      (heldHost.inject ⟨0⟩ default 0 false).2.1.events = heldHost.events ∧
      (heldHost.inject ⟨0⟩ default 0 false).2.1.proxies.live = heldHost.proxies.live ∧
      (heldHost.inject ⟨0⟩ default 0 false).2.2 = default := by
  obtain ⟨refused, _⟩ := inject_refused returningSplice greedy heldHost heldHost ⟨0⟩ returning
    (returningSplice.apply returning 0 greedy).2 0 false
    (.synthesis returning.text (.run (.popsBelowRun (.call .static greedy) 1)))
  obtain ⟨fault, errorEq, _, left, _⟩ := refused apply_greedy.1
  cases errorEq
  have failed : (heldHost.inject ⟨0⟩ default 0 false).1 =
      .error (.synthesis (default : Body).text (.unreachableSite 0)) := by cbv
  rcases done : heldHost.inject ⟨0⟩ default 0 false with ⟨result, next, after⟩
  rw [done] at failed
  cases failed
  obtain ⟨_, injected⟩ := inject_refused returningSplice greedy heldHost next ⟨0⟩ default after 0 false
    (.synthesis (default : Body).text (.unreachableSite 0))
  obtain ⟨nextEq, liveEq, _, outcome⟩ := injected reachable_heldHost done
  have bodyEq : after = default := by
    rcases outcome with ⟨⟨⟩, _⟩ | ⟨_, fault, _, sameError, _, keeps, _⟩
    cases sameError
    exact keeps.mpr rfl
  have eventsEq : next.events = heldHost.events := by rw [nextEq]
  exact ⟨congrArg Prod.fst apply_greedy.1, left.instrs_eq, left.nextLabel_eq, reachable_heldHost,
    rfl, eventsEq, liveEq, bodyEq⟩

/-- A body that refuses an injection is not always as it was. -/
theorem not_always_unchanged :
    ¬ ∀ (splice : Splice) (body after : Body) (index : Nat) (routine : MethodRef) (error : Error),
      splice.apply body index routine = (.error error, after) → after = body := by
  intro unchanged
  have same := unchanged _ _ _ _ _ _ apply_greedy.1
  have spent := apply_greedy.2
  rw [same] at spent
  exact absurd spent (by decide)

end Engine

end Weaver
