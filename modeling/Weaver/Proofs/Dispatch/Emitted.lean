import Weaver.Proofs.Code.Tracking
import Weaver.Proofs.Dispatch.Schedule

/-!
# The code of a routine

The code for one listener starts and ends with an empty stack and never takes more than is there, so
that a routine can be generated for any listeners, and the stack that it declares has room for the
arguments of each.  Its only label is the one at its end.
-/

namespace Weaver

namespace Run.Builder

variable {builder middle last : Builder}

/-- An instruction that finds its operands and is no label is emitted. -/
theorem emitAll_singleton (builder : Builder) {instr : Instr}
    (unlabelled : instr.definition? = none) (fits : instr.effect.pops ≤ builder.depth) :
    ∃ next : Builder, builder.emitAll [instr] = (.ok (), next) ∧
      next.depth = instr.effect.after builder.depth ∧ next.peak = max builder.peak next.depth := by
  have emitted : builder.emit instr = builder.extend instr := by simp [emit, arrive, unlabelled]
  rw [emitAll, emitted, extend, if_neg (Nat.not_lt.mpr fits)]
  exact ⟨_, rfl, rfl, rfl⟩

/-- Loads are emitted one above the other, as far as their slots can be counted. -/
theorem emitAll_loads (loads : List (Nat × Kind)) (below : builder.depth ≤ builder.peak)
    (counted : builder.depth + (loads.map fun load => load.2.slots).sum ≤ slotLimit) :
    ∃ next : Builder,
      builder.emitAll (loads.map fun (slot, kind) => .load kind slot) = (.ok (), next) ∧
      next.depth = builder.depth + (loads.map fun load => load.2.slots).sum ∧
      next.peak = max builder.peak next.depth := by
  induction loads generalizing builder with
  | nil => exact ⟨builder, rfl, rfl, (Nat.max_eq_left below).symm⟩
  | cons load rest ih =>
      rw [List.map_cons, List.sum_cons, ← Nat.add_assoc] at counted
      have unlabelled : (Instr.load load.2 load.1).definition? = none := rfl
      obtain ⟨middle, first, afterEq, peakEq⟩ :=
        builder.emitAll_singleton unlabelled (Nat.zero_le _)
      have depthEq : middle.depth = builder.depth + load.2.slots :=
        afterEq.trans (Effect.after_eq ((Nat.le_add_right _ _).trans counted))
      have belowMiddle : middle.depth ≤ middle.peak := by
        rw [peakEq]
        exact Nat.le_max_right _ _
      obtain ⟨last, second, lastDepth, lastPeak⟩ := ih belowMiddle (depthEq ▸ counted)
      refine ⟨last, emitAll_append first second, ?_, ?_⟩
      · rw [lastDepth, depthEq, List.map_cons, List.sum_cons, Nat.add_assoc]
      · rw [lastPeak, peakEq, lastDepth]
        omega

end Run.Builder

namespace Routine

open Run

/-- The stack has room for what the code for a listener needs. -/
def HasRoom (routine : Routine) (listener : Listener) (room : Nat) : Prop :=
  ((listener.taken routine.signature).map Ty.slots).sum ≤ room ∧
    (routine.cancellable = true → 1 ≤ room)

theorem HasRoom.mono {routine : Routine} {listener : Listener} {room more : Nat}
    (hasRoom : routine.HasRoom listener room) (le : room ≤ more) :
    routine.HasRoom listener more :=
  ⟨Nat.le_trans hasRoom.1 le, fun cancellable => Nat.le_trans (hasRoom.2 cancellable) le⟩

variable {routine : Routine} {builder : Builder}

theorem emitAll_stopIfCancelled (routine : Routine) (empty : builder.depth = 0) :
    ∃ next, builder.emitAll routine.stopIfCancelled = (.ok (), next) ∧ next.depth = 0 ∧
      builder.peak ≤ next.peak ∧ (routine.cancellable = true → 1 ≤ next.peak) := by
  unfold stopIfCancelled
  cases routine.cancellable with
  | false => exact ⟨builder, rfl, empty, Nat.le_refl _, by simp⟩
  | true =>
      have loads : (Instr.load .reference 0).definition? = none := rfl
      have asks : (Instr.call .virtual routine.wrapper.isCancelled).definition? = none := rfl
      have jumps : (Instr.jump .ifNonZero done).definition? = none := rfl
      obtain ⟨loaded, first, loadedDepth, loadedPeak⟩ :=
        builder.emitAll_singleton loads (Nat.zero_le _)
      have loadedOne : loaded.depth = 1 := by
        rw [loadedDepth, empty]
        rfl
      obtain ⟨asked, second, askedDepth, askedPeak⟩ :=
        loaded.emitAll_singleton asks (by rw [loadedOne]; exact Nat.le_refl 1)
      have askedOne : asked.depth = 1 := by
        rw [askedDepth, loadedOne]
        rfl
      obtain ⟨jumped, third, jumpedDepth, jumpedPeak⟩ :=
        asked.emitAll_singleton jumps (by rw [askedOne]; exact Nat.le_refl 1)
      have jumpedZero : jumped.depth = 0 := by
        rw [jumpedDepth, askedOne]
        rfl
      refine ⟨jumped, Builder.emitAll_append first (Builder.emitAll_append second third),
        jumpedZero, ?_, ?_⟩
      · omega
      · omega

/-- The code for a listener is emitted, and the peak covers what it needs. -/
theorem emitAll_callOf (empty : builder.depth = 0)
    (narrow : routine.signature.totalSlots ≤ slotLimit) (entry : Event × Listener) :
    ∃ next, builder.emitAll (routine.callOf entry) = (.ok (), next) ∧ next.depth = 0 ∧
      builder.peak ≤ next.peak ∧
      (entry.2.Accepts routine.signature → routine.HasRoom entry.2 next.peak) := by
  unfold callOf
  rw [Listener.resolve?_eq]
  by_cases accepts : entry.2.Accepts routine.signature
  · rw [if_pos accepts]
    dsimp only
    let signature : Signature := ⟨entry.2.taken routine.signature, .void⟩
    have sumEq : signature.totalSlots = ((entry.2.taken routine.signature).map Ty.slots).sum :=
      signature.totalSlots_eq_sum
    have within : signature.totalSlots ≤ slotLimit := by
      rw [sumEq]
      exact Nat.le_trans accepts.totalSlots_le narrow
    obtain ⟨loaded, first, loadedDepth, loadedPeak⟩ :=
      Builder.emitAll_loads (signature.parameterSlots 0) (by rw [empty]; exact Nat.zero_le _)
        (by rw [empty, Signature.sum_parameterSlots, Nat.zero_add]; exact within)
    rw [Signature.sum_parameterSlots, empty, Nat.zero_add] at loadedDepth
    have calls : (Instr.guardedCall (guardedCall entry.1 entry.2 signature)).definition? = none :=
      rfl
    have pops : (Instr.guardedCall (guardedCall entry.1 entry.2 signature)).effect.pops =
        loaded.depth := by
      rw [loadedDepth]
      exact Nat.min_eq_left within
    obtain ⟨called, second, calledDepth, calledPeak⟩ :=
      loaded.emitAll_singleton calls (Nat.le_of_eq pops)
    have calledZero : called.depth = 0 := by
      rw [calledDepth, Effect.after, Effect.slotsAfter, pops, Nat.sub_self]
      rfl
    obtain ⟨last, third, lastZero, lastPeak, covers⟩ :=
      routine.emitAll_stopIfCancelled calledZero
    refine ⟨last, Builder.emitAll_append (Builder.emitAll_append first second) third, lastZero,
      ?_, ?_⟩
    · omega
    · intro _
      constructor
      · rw [← sumEq]
        omega
      · exact covers
  · rw [if_neg accepts]
    exact ⟨builder, rfl, empty, Nat.le_refl _, fun accepted => absurd accepted accepts⟩

/-- The code for all listeners is emitted, and the peak covers what each of them needs. -/
theorem emitAll_calls (empty : builder.depth = 0)
    (narrow : routine.signature.totalSlots ≤ slotLimit) (entries : List (Event × Listener)) :
    ∃ next, builder.emitAll (entries.flatMap routine.callOf) = (.ok (), next) ∧
      builder.peak ≤ next.peak ∧
      ∀ entry ∈ entries, entry.2.Accepts routine.signature →
        routine.HasRoom entry.2 next.peak := by
  induction entries generalizing builder with
  | nil => exact ⟨builder, rfl, Nat.le_refl _, by simp⟩
  | cons entry rest ih =>
      obtain ⟨middle, first, middleZero, middlePeak, covers⟩ := emitAll_callOf empty narrow entry
      obtain ⟨last, second, lastPeak, coversRest⟩ := ih middleZero
      refine ⟨last, Builder.emitAll_append first second, Nat.le_trans middlePeak lastPeak, ?_⟩
      intro other member accepts
      rcases List.mem_cons.mp member with rfl | later
      · exact (covers accepts).mono lastPeak
      · exact coversRest other later accepts

/-- The end of a routine, behind the code for its listeners. -/
def ending (branches : Bool) : List Instr :=
  (if branches then [.label done] else []) ++ [.ret none]

theorem instrs_eq_ending (routine : Routine) (entries : List (Event × Listener)) :
    routine.instrs entries =
      entries.flatMap routine.callOf ++ ending (routine.branches entries) :=
  List.append_assoc _ _ _

theorem emitAll_ending (builder : Builder) (branches : Bool) :
    ∃ next, builder.emitAll (ending branches) = (.ok (), next) ∧ builder.peak ≤ next.peak := by
  have unlabelled : (Instr.ret none).definition? = none := rfl
  have returns : ∀ before : Builder, ∃ next,
      before.emitAll [.ret none] = (.ok (), next) ∧ before.peak ≤ next.peak := by
    intro before
    obtain ⟨next, emitted, _, peakEq⟩ := before.emitAll_singleton unlabelled (Nat.zero_le _)
    exact ⟨next, emitted, by omega⟩
  cases branches with
  | false => exact returns builder
  | true =>
      obtain ⟨next, emitted, peakLe⟩ : ∃ next, builder.emit (.label done) = .ok next ∧
          builder.peak ≤ next.peak := by
        unfold Builder.emit Builder.arrive
        split
        · exact ⟨_, rfl, Nat.le_max_left _ _⟩
        · exact ⟨_, rfl, Nat.le_max_left _ _⟩
      obtain ⟨last, returned, lastLe⟩ := returns next
      refine ⟨last, ?_, Nat.le_trans peakLe lastLe⟩
      change builder.emitAll (.label done :: [.ret none]) = _
      rw [Builder.emitAll, emitted]
      exact returned

theorem label_not_mem_callOf (routine : Routine) (entry : Event × Listener) (label : Label) :
    Instr.label label ∉ routine.callOf entry := by
  unfold callOf
  cases entry.2.resolve? routine.signature with
  | none => simp
  | some signature =>
      cases cancellable : routine.cancellable <;> simp [Run.loadArgs, stopIfCancelled, cancellable]

theorem definedAt_ending {branches : Bool} {label : Label} {position : Nat}
    (defined : Code.DefinedAt (ending branches) label position) : position = 0 := by
  unfold Code.DefinedAt ending at defined
  cases branches with
  | false =>
      cases position with
      | zero => rfl
      | succ position => simp at defined
  | true =>
      rcases position with _ | _ | position
      · rfl
      · simp at defined
      · simp at defined

/-- The only label of a routine is the one at its end. -/
theorem definedAt_instrs {entries : List (Event × Listener)} {label : Label} {position : Nat}
    (defined : Code.DefinedAt (routine.instrs entries) label position) :
    position = (entries.flatMap routine.callOf).length := by
  have unlabelled : Instr.label label ∉ entries.flatMap routine.callOf := by
    intro member
    obtain ⟨entry, _, inCall⟩ := List.mem_flatMap.mp member
    exact routine.label_not_mem_callOf entry label inCall
  rw [instrs_eq_ending] at defined
  obtain ⟨behind, atEnding⟩ := defined.of_append unlabelled
  have first : position - (entries.flatMap routine.callOf).length = 0 := definedAt_ending atEnding
  omega

/-- The body of a routine for a list of events and listeners. -/
structure Generated (routine : Routine) (entries : List (Event × Listener)) (body : Body) :
    Prop where
  instrs_eq : body.code.instrs = routine.instrs entries
  signature_eq : body.signature = routine.signature
  isStatic_eq : body.isStatic = true
  maxLocals_eq : body.maxLocals = routine.signature.totalSlots
  hasRoom : ∀ entry ∈ entries, entry.2.Accepts routine.signature →
    routine.HasRoom entry.2 body.maxStack

/-- A routine can be generated whatever its listeners are. -/
theorem generate_eq_ok (narrow : routine.signature.totalSlots ≤ slotLimit) (store : EventStore) :
    ∃ body, (routine.generate store).1 = .ok body ∧
      Generated routine (routine.listeners store) body := by
  have empty : Builder.empty.depth = 0 := rfl
  obtain ⟨called, first, _, covers⟩ := emitAll_calls empty narrow (routine.listeners store)
  obtain ⟨last, second, lastLe⟩ :=
    emitAll_ending called (routine.branches (routine.listeners store))
  have emitted : Builder.empty.emitAll (routine.instrs (routine.listeners store)) =
      (.ok (), last) := by
    rw [instrs_eq_ending]
    exact Builder.emitAll_append first second
  have run : Run.ofList (routine.instrs (routine.listeners store)) =
      .ok ⟨last.emitted.toList, last.peak⟩ := by
    rw [Run.ofList, emitted]
  have isStatic : Access.generated.isStatic = true := by decide
  have narrowed : routine.signature.argsSize = routine.signature.totalSlots :=
    Nat.min_eq_left narrow
  refine ⟨_, by rw [generate, run], ?_⟩
  exact
    { instrs_eq := Run.instrs_of_ofList run
      signature_eq := rfl
      isStatic_eq := isStatic
      maxLocals_eq := by
        change addSlots (!Access.generated.isStatic).toNat routine.signature.argsSize = _
        rw [isStatic, narrowed]
        exact (addSlots_of_le (by simpa using narrow)).trans (Nat.zero_add _)
      hasRoom := fun entry member accepts => (covers entry member accepts).mono lastLe }

/-- The labels of a routine are told, and the one at the end is found there. -/
theorem Generated.labels {entries : List (Event × Listener)} {body : Body}
    (generated : Generated routine entries body) :
    ∃ labels, body.code.labelPositions = .ok labels ∧
      (routine.branches entries = true →
        labels.lookup done = some (entries.flatMap routine.callOf).length) := by
  have unique : Code.UniqueLabels body.code.instrs := by
    intro label first second firstAt secondAt
    rw [generated.instrs_eq] at firstAt secondAt
    rw [definedAt_instrs firstAt, definedAt_instrs secondAt]
  obtain ⟨labels, collected⟩ := (Code.labelPositions_isOk_iff body.code).mpr unique
  refine ⟨labels, collected, ?_⟩
  intro branches
  rw [Code.lookup_labelPositions collected, generated.instrs_eq, instrs_eq_ending, branches]
  simp [Code.DefinedAt, ending]

end Routine

end Weaver
