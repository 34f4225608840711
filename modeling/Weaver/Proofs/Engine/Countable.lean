import Weaver.Proofs.Engine.Weaving
import Weaver.Proofs.Machine.Arguments
import Weaver.Proofs.Splice.Flow

/-!
# Depths that can be counted across injections

The depths of the analysis are numbers of slots as long as no sum of them is too large for its count.
A run needs no more slots than its instructions push, and an injection checks that there is room for
them above the site.  So where all depths of a body can be counted, those of the body with its runs
can be counted too, and no sum wraps at any site.
-/

namespace Weaver

theorem Effect.slotsAfter_le_add (effect : Effect) (depth : Nat) :
    effect.slotsAfter depth ≤ depth + effect.pushes :=
  Nat.add_le_add_right (Nat.sub_le _ _) _

namespace Run.Builder

/-- The slots that instructions push altogether. -/
def pushes (instrs : List Instr) : Nat := (instrs.map fun instr => instr.effect.pushes).sum

theorem pushes_append (front back : List Instr) :
    pushes (front ++ back) = pushes front + pushes back := by
  simp [pushes]

theorem pushes_le (instrs : List Instr) : pushes instrs ≤ 2 * instrs.length := by
  induction instrs with
  | nil => exact Nat.le_refl _
  | cons instr rest ih =>
      have here := instr.pushes_le_two
      simp only [pushes, List.map_cons, List.sum_cons, List.length_cons] at ih ⊢
      omega

theorem pushes_loadArgs (signature : Signature) (first : Nat) :
    pushes (loadArgs signature first) = signature.totalSlots := by
  rw [pushes, loadArgs, List.map_map]
  exact signature.sum_parameterSlots first

/-- All depths that a builder knows are within a bound. -/
structure Within (bound : Nat) (builder : Builder) : Prop where
  depth_le : builder.depth ≤ bound
  peak_le : builder.peak ≤ bound
  noted_le : ∀ {label depth}, builder.labelDepths.lookup label = some depth → depth ≤ bound

variable {builder next last : Builder} {bound : Nat} {instr : Instr} {instrs : List Instr}

theorem Within.arrive (within : builder.Within bound) (instr : Instr) :
    (builder.arrive instr).Within bound := by
  unfold Builder.arrive
  split
  · rename_i depth noted
    obtain ⟨label, _, known⟩ := Option.bind_eq_some_iff.mp noted
    exact ⟨within.noted_le known, within.peak_le, within.noted_le⟩
  · exact within

theorem Within.emit (within : builder.Within bound) (emitted : builder.emit instr = .ok next) :
    next.Within (bound + instr.effect.pushes) := by
  have arrived := within.arrive instr
  obtain ⟨_, rfl⟩ := extend_eq_ok_iff.mp emitted
  have raised : instr.effect.after (builder.arrive instr).depth ≤ bound + instr.effect.pushes :=
    calc instr.effect.after (builder.arrive instr).depth
        ≤ instr.effect.slotsAfter (builder.arrive instr).depth := Nat.mod_le _ _
      _ ≤ (builder.arrive instr).depth + instr.effect.pushes := Effect.slotsAfter_le_add _ _
      _ ≤ bound + instr.effect.pushes := Nat.add_le_add_right arrived.depth_le _
  refine ⟨raised, Nat.max_le.mpr ⟨Nat.le_add_right_of_le arrived.peak_le, raised⟩, ?_⟩
  intro label depth noted
  rw [lookup_noteTarget, Option.or_eq_some_iff] at noted
  rcases noted with before | ⟨_, now⟩
  · exact Nat.le_add_right_of_le (arrived.noted_le before)
  · split at now
    · cases now
      exact raised
    · cases now

theorem Within.emitAll (within : builder.Within bound)
    (emitted : builder.emitAll instrs = (.ok (), last)) : last.Within (bound + pushes instrs) := by
  induction instrs generalizing builder bound with
  | nil =>
      cases emitted
      exact within
  | cons instr rest ih =>
      obtain ⟨next, once, later⟩ := emitAll_cons_iff.mp emitted
      have behind := ih (within.emit once) later
      rw [Nat.add_assoc] at behind
      exact behind

theorem peak_le_pushes {run : Run} (made : ofList instrs = .ok run) : run.peak ≤ pushes instrs := by
  obtain ⟨last, emitted, peakEq⟩ := exists_emitAll_of_ofList made
  have atStart : empty.Within 0 := ⟨Nat.le_refl _, Nat.le_refl _, fun noted => nomatch noted⟩
  have atEnd := atStart.emitAll emitted
  rw [Nat.zero_add] at atEnd
  rw [peakEq]
  exact atEnd.peak_le

end Run.Builder

namespace Splice

open Body Run.Builder

variable {splice : Splice} {body woven : Body} {index depth firstArgSlot : Nat} {routine : MethodRef}
  {slot? : Option Nat} {skip : Label} {run : Run}

theorem length_leave_le (returnType : Ty) (slot : Nat) : (leave returnType slot).length ≤ 4 := by
  unfold leave
  split
  · simp
  · rename_i accessor _
    cases accessor.cast <;> simp

/-- Beside the arguments a run pushes few slots. -/
theorem pushes_instrs_le (splice : Splice) (firstArgSlot : Nat) (routine : MethodRef)
    (slot? : Option Nat) (skip : Label) :
    pushes (splice.instrs firstArgSlot routine slot? skip) ≤
      splice.attachment.signature.totalSlots + 34 := by
  have construct : pushes splice.construct ≤ 12 := pushes_le _
  have dispatch : pushes (splice.dispatch firstArgSlot routine) ≤
      splice.attachment.signature.totalSlots + 2 := by
    rw [Splice.dispatch, pushes_append, pushes_loadArgs]
    exact Nat.add_le_add_left (pushes_le _) _
  cases slot? with
  | none =>
      rw [instrs, pushes_append]
      omega
  | some slot =>
      have keep : pushes (keep slot) ≤ 4 := pushes_le _
      have check : pushes (splice.check slot skip) ≤ 16 := by
        have leave := length_leave_le splice.attachment.returnType slot
        refine (pushes_le _).trans ?_
        simp only [Splice.check, List.length_append, List.length_cons, List.length_nil]
        omega
      simp only [instrs, pushes_append]
      omega

theorem countable_of_isGreatest {instrs : List Instr} {peak : Nat}
    (greatest : IsGreatest (heights instrs) peak) (low : peak + 2 ≤ slotLimit) :
    Countable instrs := by
  refine countable_iff.mpr ?_
  intro index depth instr reached here
  have inside : depth ≤ peak := greatest.2 ⟨index, depth, instr, reached, here, .inl rfl⟩
  calc instr.effect.slotsAfter depth
      ≤ depth + instr.effect.pushes := Effect.slotsAfter_le_add _ _
    _ ≤ peak + 2 := Nat.add_le_add inside instr.pushes_le_two
    _ ≤ slotLimit := low

/-- Code that can be counted can be counted with a run that has room at the site. -/
theorem Inserted.countable {run : List Instr} (inserted : Inserted body index run woven)
    (passable : Passable run) (room : HasRoom body index run)
    (countable : Countable body.code.instrs) (counted : Countable run) :
    Countable woven.code.instrs := by
  refine countable_iff.mpr ?_
  intro position depth instr reached here
  cases (inserted.reaches_iff passable room).mp reached with
  | relocated origin =>
      rw [inserted.fetch_relocated] at here
      exact countable.slotsAfter_le origin here
  | @inside below offset depth within falls inRun =>
      rw [inserted.fetch_inserted within] at here
      have enough := passable.enough inRun here
      have exact : instr.effect.after depth = instr.effect.slotsAfter depth :=
        Effect.after_eq (counted.slotsAfter_le inRun here)
      have narrow : below + instr.effect.after depth ≤ slotLimit :=
        room below falls.reaches _ ⟨offset, depth, instr, inRun, here, .inr rfl⟩
      unfold Effect.slotsAfter at exact ⊢
      omega

/-- An injection into a method with few parameters keeps what can be counted. -/
theorem Applied.countable (effect : Applied splice body index routine depth skip run woven)
    (slotsEq : routine.signature.totalSlots = splice.attachment.signature.totalSlots + 1)
    (void : routine.signature.ret = .void)
    (few : splice.attachment.signature.totalSlots ≤ Signature.maxParameterSlots)
    (countable : Countable body.code.instrs) : Countable woven.code.instrs := by
  obtain ⟨depths, analysed, known⟩ := effect.analysed
  obtain ⟨_, balanced, reached⟩ := balanced_of_known analysed known
  obtain ⟨passable, greatest⟩ := passable_instrs slotsEq void effect.made
  have low : run.peak + 2 ≤ slotLimit :=
    calc run.peak + 2
        ≤ splice.attachment.signature.totalSlots + 34 + 2 :=
          Nat.add_le_add_right ((peak_le_pushes effect.made).trans (pushes_instrs_le ..)) 2
      _ ≤ Signature.maxParameterSlots + 36 := Nat.add_le_add_right few 36
      _ ≤ slotLimit := by decide
  exact effect.inserted.countable passable (.of_peak balanced reached greatest effect.narrow)
    countable (countable_of_isGreatest greatest low)

end Splice

namespace Loom

open Body

variable {store : EventStore} {ids : List EventId} {loom after : Loom} {routines : List RoutineId}
  {entries : List Diagnostic}

/-- Injections at several sites of a method with few parameters keep what can be counted. -/
theorem countable_of_injectSites {sites : SiteMap} (orderly : store.Orderly)
    (registered : ∀ id ∈ ids, id ∈ store.registered)
    (ready : store.Ready (.ofBody loom.body) ids loom.events)
    (proper : ∀ entry ∈ sites, entry.2 ≠ [] ∧ entry.2.Nodup ∧ ∀ id ∈ entry.2, id ∈ ids)
    (few : loom.body.signature.totalSlots ≤ Signature.maxParameterSlots)
    (done : loom.injectSites sites = (.ok (), routines, entries, after))
    (countable : Countable loom.body.code.instrs) : Countable after.body.code.instrs := by
  induction sites generalizing loom routines entries with
  | nil =>
      cases done
      exact countable
  | cons site rest ih =>
      obtain ⟨index, events⟩ := site
      obtain ⟨⟨filled, once, among⟩, properRest⟩ := List.forall_mem_cons.mp proper
      unfold injectSites at done
      split at done
      · cases done
      · rename_i first noted middle here
        split at done
        rename_i later laterEntries last behind
        cases done
        obtain ⟨inlay, depth, run, rfl, rfl, slotEq, effect, merges, adds, readyNext⟩ :=
          exists_of_injectSite orderly registered ready among once filled here
        obtain ⟨lead, _, spliceEq⟩ := merges.splice_eq
        have attachmentEq : inlay.splice.attachment = .ofBody loom.body := by rw [spliceEq]
        have signatureEq : inlay.splice.attachment.signature = loom.body.signature := by
          rw [attachmentEq]
          rfl
        have routineEq : inlay.routine.ref.signature =
            Routine.signatureFor (.forReturn loom.body.signature.ret) loom.body :=
          merges.signature_eq
        have keeps : Countable middle.body.code.instrs := by
          refine effect.countable ?_ ?_ (signatureEq ▸ few) countable
          · rw [routineEq, signatureEq]
            exact Nat.add_comm _ _
          · rw [routineEq]
            rfl
        have bound : Attachment.ofBody middle.body = .ofBody loom.body := by
          rw [effect.woven_eq]
          rfl
        have same : middle.body.signature = loom.body.signature := by rw [effect.woven_eq]
        exact ih (bound.symm ▸ readyNext) properRest (same ▸ few) behind keeps

end Loom

namespace Engine

open Body

variable {engine next : Engine} {body woven : Body} {result : Except Error TransformReport}

/-- Where all depths of a body can be counted, no transformation makes them too large. -/
theorem Orderly.countable_of_transform (orderly : engine.Orderly)
    (done : engine.transform body = (result, next, woven))
    (countable : Countable body.code.instrs) : Countable woven.code.instrs := by
  cases result with
  | error error =>
      rw [eq_of_transform_error done]
      exact countable
  | ok report =>
      rcases transform_cases done with
        ⟨_, _, rfl⟩ | ⟨something, attached, last, entries, attachedAll, injected, _, _, rfl⟩
      · exact countable
      · obtain ⟨bodyEq, _, ready⟩ := orderly.ready_of_attachAll attachedAll
        obtain ⟨_, proper⟩ := @descending_of_fromLast engine body _ List.prefix_rfl
        obtain ⟨⟨index, events⟩, entryIn⟩ := List.exists_mem_of_ne_nil _ something
        obtain ⟨event, held⟩ := List.exists_mem_of_ne_nil _
          (proper _ (List.mem_reverse.mpr entryIn)).1
        obtain ⟨injection, _, _, named, _⟩ := (engine.mem_siteMap_iff entryIn event).mp held
        have few : attached.body.signature.totalSlots ≤ Signature.maxParameterSlots :=
          bodyEq ▸ Target.totalSlots_le_of_names named
        exact Loom.countable_of_injectSites orderly.events
          (fun _ => orderly.registered_of_mem_eventsOf) ready proper few injected
          (bodyEq ▸ countable)

end Engine

end Weaver
