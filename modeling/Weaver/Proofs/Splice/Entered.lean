import Weaver.Proofs.Splice.Verified

/-!
# Whether control comes into an inserted run

A branch to the site leads to the instruction there and not to the run, so the run is executed only
where control falls through to the site.  An injection asks for less: it refuses a site to which no
path leads at all.
-/

namespace Weaver.Splice

open Body Run.Builder

variable {splice : Splice} {body woven : Body} {index : Nat} {routine : MethodRef}
  {firstArgSlot : Nat} {slot? : Option Nat} {skip : Label}

/-- The run that was inserted at the index starts at the depth with which control falls through to
it, and goes on to the call of the routine; where control does not fall through, it is never
executed. -/
structure Entered (body woven : Body) (index : Nat) (routine : MethodRef) : Prop where
  starts : ∃ depths, woven.stackDepths = .ok depths ∧
    ∀ depth, depths[index]? = some (some depth) ↔ FallsTo body.code.instrs index depth
  calls : ∃ offset, woven.code.instrs[index + offset]? = some (.call .static routine) ∧
    ((∃ depth, Reaches woven.code.instrs (index + offset) depth) ↔
      ∃ depth, FallsTo body.code.instrs index depth)

/-- Control that starts at the run comes to its call. -/
theorem exists_reaches_call {last : Run.Builder}
    (emitted : empty.emitAll (splice.instrs firstArgSlot routine slot? skip) = (.ok (), last)) :
    ∃ depth, Reaches (splice.instrs firstArgSlot routine slot? skip)
      (splice.lead firstArgSlot slot?).length depth := by
  have coherent := coherent_instrs emitted
  rw [instrs_eq] at emitted coherent ⊢
  have atCall : (splice.lead firstArgSlot slot? ++ .call .static routine ::
      splice.settle slot? skip)[(splice.lead firstArgSlot slot?).length]? =
        some (.call .static routine) := by
    simp
  have reachable := ((straight_lead splice firstArgSlot slot?).emitAll (emitAll_stage emitted)).2.1
  rw [← arrival_of_unlabelled atCall rfl] at reachable
  exact ⟨_, reaches_of_reachable emitted coherent.live
    (Nat.le_of_lt (List.getElem?_eq_some_iff.mp atCall).1) reachable⟩

/-- Control comes into the run of an injection that succeeds where it falls through to the site. -/
theorem Applied.entered {depth : Nat} {run : Run}
    (effect : Applied splice body index routine depth skip run woven)
    (slotsEq : routine.signature.totalSlots = splice.attachment.signature.totalSlots + 1)
    (void : routine.signature.ret = .void) : Entered body woven index routine := by
  obtain ⟨depths, analysed, known⟩ := effect.analysed
  obtain ⟨nonempty, balanced, reached⟩ := balanced_of_known analysed known
  have inserted := effect.inserted
  obtain ⟨passable, greatest⟩ := passable_instrs slotsEq void effect.made
  have room := HasRoom.of_peak balanced reached greatest effect.narrow
  have grownNonempty := inserted.ne_nil nonempty
  obtain ⟨last, emitted, _⟩ := exists_emitAll_of_ofList effect.made
  obtain ⟨inner, reachesCall⟩ := exists_reaches_call emitted
  have atCall : (splice.instrs body.firstArgSlot routine (splice.wrapperLocal? body) skip)[
      (splice.lead body.firstArgSlot (splice.wrapperLocal? body)).length]? =
        some (.call .static routine) := by
    rw [instrs_eq]
    simp
  have within := (List.getElem?_eq_some_iff.mp atCall).1
  constructor
  · obtain ⟨grown, analysedWoven⟩ :=
      (stackDepths_isOk_iff grownNonempty).mpr (inserted.balanced passable room balanced)
    refine ⟨grown, analysedWoven, ?_⟩
    intro height
    rw [(records_of_stackDepths grownNonempty analysedWoven).known_iff, ← Nat.add_zero index,
      inserted.reaches_inside_iff passable room (Nat.zero_lt_of_lt within)]
    constructor
    · rintro ⟨below, atStart, falls, reached, rfl⟩
      cases passable.agree reached (reaches_start _)
      exact falls
    · exact fun falls => ⟨height, 0, falls, reaches_start _, rfl⟩
  · refine ⟨_, (inserted.fetch_inserted within).trans atCall, ?_⟩
    simp only [inserted.reaches_inside_iff passable room within]
    constructor
    · rintro ⟨_, below, _, falls, _, _⟩
      exact ⟨below, falls⟩
    · rintro ⟨below, falls⟩
      exact ⟨_, below, inner, falls, reachesCall, rfl⟩

/-- A site to which no path leads is refused. -/
theorem apply_of_unreachable {depths : List (Option Nat)} (splice : Splice)
    (analysed : body.stackDepths = .ok depths)
    (unreachable : ∀ depth, ¬ Reaches body.code.instrs index depth) (routine : MethodRef) :
    splice.apply body index routine =
      (.error (.synthesis body.text (.unreachableSite index)), body) := by
  have unknown : depths[index]?.join = none := by
    rw [Option.eq_none_iff_forall_ne_some]
    intro depth known
    have entry := Option.join_eq_some_iff.mp known
    exact unreachable depth (balanced_of_known analysed entry).2.2
  unfold apply
  rw [analysed]
  dsimp only
  rw [unknown]
  rfl

end Weaver.Splice

namespace Weaver.Loom

open Splice Body

variable {loom after : Loom} {id : EventId} {index : Nat} {cancellable : Bool}

/-- An event is not injected at a site to which no path leads. -/
theorem inject_of_unreachable {depths : List (Option Nat)} {attachment : Attachment}
    (attached : (loom.events.get id).attachedTo loom.body.text = .ok attachment)
    (analysed : loom.body.stackDepths = .ok depths)
    (unreachable : ∀ depth, ¬ Reaches loom.body.code.instrs index depth) :
    (loom.inject id index cancellable).1 =
        .error (.synthesis loom.body.text (.unreachableSite index)) ∧
      (loom.inject id index cancellable).2.body = loom.body := by
  unfold inject
  simp only [attached]
  have bodyEq : (loom.allocate id attachment.wrapper index cancellable).2.body = loom.body := rfl
  rw [bodyEq, apply_of_unreachable _ analysed unreachable]
  exact ⟨rfl, rfl⟩

/-- An injected run can fire exactly if control falls through to its site.  Whether an event is
injected or a splice is applied with the reference of its routine: if that succeeds, the woven body
has depths, the one at the index is that with which control falls through to the site, and the call
of the routine is on a path exactly if there is such a depth.  A site to which no path leads is
refused, and the body is left as it is. -/
theorem inject_entered (body : Body) (index : Nat) :
    (∀ (splice : Splice) (routine : MethodRef) (report : Splice.Report) (woven : Body),
      splice.attachment.signature = body.signature →
      routine.signature = Routine.signatureFor splice.attachment.wrapper body →
      splice.apply body index routine = (.ok report, woven) →
      Entered body woven index routine) ∧
    (∀ (loom after : Loom) (id : EventId) (cancellable : Bool) (attachment : Attachment)
        (routine : RoutineId),
      loom.body = body → (loom.events.get id).attachment = some attachment →
      attachment.signature = body.signature →
      loom.inject id index cancellable = (.ok routine, after) →
      Entered body after.body index (after.proxies.get routine).ref) ∧
    ∀ depths, body.stackDepths = .ok depths →
      (∀ depth, ¬ Reaches body.code.instrs index depth) →
      (∀ (splice : Splice) (routine : MethodRef), splice.apply body index routine =
        (.error (.synthesis body.text (.unreachableSite index)), body)) ∧
      ∀ (loom : Loom) (id : EventId) (cancellable : Bool) (attachment : Attachment),
        loom.body = body → (loom.events.get id).attachedTo body.text = .ok attachment →
        (loom.inject id index cancellable).1 =
            .error (.synthesis body.text (.unreachableSite index)) ∧
          (loom.inject id index cancellable).2.body = body := by
  have enters : ∀ (splice : Splice) (routine : MethodRef) (report : Splice.Report) (woven : Body),
      splice.attachment.signature = body.signature →
      routine.signature = Routine.signatureFor splice.attachment.wrapper body →
      splice.apply body index routine = (.ok report, woven) →
      Entered body woven index routine := by
    intro splice routine report woven signatureEq routineEq applied
    obtain ⟨depth, skip, run, effect, _⟩ := applied_of_apply applied
    refine effect.entered ?_ (by rw [routineEq]; rfl)
    rw [routineEq, signatureEq]
    exact Nat.add_comm _ _
  refine ⟨enters, ?_, ?_⟩
  · rintro loom after id cancellable attachment routine rfl attached signatureEq injected
    obtain ⟨⟨report, applied⟩, routineEq⟩ := apply_of_inject attached injected
    exact enters ⟨(loom.events.get id).name, attachment, cancellable⟩ _ report _ signatureEq routineEq
      applied
  · intro depths analysed unreachable
    refine ⟨fun splice => apply_of_unreachable splice analysed unreachable, ?_⟩
    rintro loom id cancellable attachment rfl attached
    exact inject_of_unreachable attached analysed unreachable

/-- Control falls through to one index of the countdown, and does not come to another at all. -/
theorem inject_entered_countdown :
    ((ofBody .countdown).inject ⟨0⟩ 4 true).1 = .ok ⟨1⟩ ∧
      FallsTo countdown.code.instrs 4 2 ∧
      Entered .countdown ((ofBody .countdown).inject ⟨0⟩ 4 true).2.body 4
        (((ofBody .countdown).inject ⟨0⟩ 4 true).2.proxies.get ⟨1⟩).ref ∧
      ((ofBody .countdown).inject ⟨0⟩ 9 true).1 =
        .error (.synthesis countdown.text (.unreachableSite 9)) := by
  have injected : ((ofBody .countdown).inject ⟨0⟩ 4 true).1 = .ok ⟨1⟩ := by decide +kernel
  have records := records_of_stackDepths (by decide) stackDepths_countdown
  have falls : FallsTo countdown.code.instrs 4 2 :=
    .next ((records.known_iff 3 3).mp rfl) rfl (by decide) rfl
  have entered := (inject_entered .countdown 4).2.1 (ofBody .countdown) _ ⟨0⟩ true
    (.ofBody .countdown) ⟨1⟩ rfl rfl rfl (Prod.ext injected rfl)
  have refused := ((inject_entered .countdown 9).2.2 _ stackDepths_countdown
    ((records.unknown_iff 9 (by decide)).mp rfl)).2 (ofBody .countdown) ⟨0⟩ true
      (.ofBody .countdown) rfl (if_pos rfl)
  exact ⟨injected, falls, entered, refused.1⟩

/-- A body that branches to its end. -/
def branching : Body :=
  { Body.ofNames "a/B" "m" ⟨[], .void⟩ ⟨9⟩ with
    code := .ofList [.jump .always ⟨0⟩, .label ⟨0⟩, .ret none] }

/-- The label of the branch is a site that is accepted, and its run is never executed. -/
theorem not_always_entered :
    ((ofBody branching).inject ⟨0⟩ 1 false).1 = .ok ⟨1⟩ ∧
      ((ofBody branching).inject ⟨0⟩ 1 false).2.body.stackDepths =
        .ok [some 0, none, none, none, none, none, none, none, some 0, some 0] ∧
      ∀ offset < 7, ∀ depth,
        ¬ Reaches ((ofBody branching).inject ⟨0⟩ 1 false).2.body.code.instrs (1 + offset) depth := by
  have injected : ((ofBody branching).inject ⟨0⟩ 1 false).1 = .ok ⟨1⟩ := by decide +kernel
  have analysed : ((ofBody branching).inject ⟨0⟩ 1 false).2.body.stackDepths =
      .ok [some 0, none, none, none, none, none, none, none, some 0, some 0] := by decide +kernel
  have records := records_of_stackDepths (by decide +kernel) analysed
  have unknown : ∀ offset < 7, [some 0, none, none, none, none, none, none, none, some 0,
      some 0][1 + offset]? = some (none : Option Nat) := by decide
  refine ⟨injected, analysed, ?_⟩
  intro offset below depth reached
  have known := (records.known_iff (1 + offset) depth).mpr reached
  cases (unknown offset below).symm.trans known

end Weaver.Loom
