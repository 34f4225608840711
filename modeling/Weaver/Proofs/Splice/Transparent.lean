import Weaver.Proofs.Body.Depths
import Weaver.Proofs.Engine.Injection
import Weaver.Proofs.Splice.Applied
import Weaver.Proofs.Splice.Lockstep

/-!
# Uncancelled injections are transparent

An execution of the woven body is an execution of the body that is interrupted at the site: whenever
control falls through to it, the inserted run comes first.  A `Thread` is the state of the body with
what the woven frame has besides, and its image is the state of the woven body.
-/

namespace Weaver.Machine

namespace Interpreter

/-- The number of steps behind the dispatch call of a visit that does not cancel. -/
def settling (slot? : Option Nat) : Nat := if slot?.isSome then 4 else 0

/-- A visit of an inserted run that does not cancel: control comes from its start to the dispatch
call, which returns without a value; where listeners may cancel, none did, and the budget is not spent
before the wrapper was asked. -/
structure Visit (interpreter : Interpreter) (behaviour : Behaviour) (splice : Splice)
    (firstArgSlot : Nat) (slot? : Option Nat) (start call back : Frame × World) : Prop where
  arrives : interpreter.AdvancesBy behaviour (splice.lead firstArgSlot slot?).length start call
  returns : interpreter.Advances behaviour call back
  void : interpreter.answer? behaviour call.1 call.2 = some (.ok none, back.2)
  uncancelled : slot?.isSome → back.2.heap.isCancelled start.2.nextRef = .ok false
  budget : slot?.isSome → back.2.executed + settling slot? ≤ interpreter.limits.budget

variable {interpreter : Interpreter} {other : Behaviour} {splice : Splice} {body woven : Body}
  {index : Nat} {routine : MethodRef} {slot? : Option Nat} {skip : Label}

/-- The run stands in the woven code from the site on. -/
theorem stretch_of_inserted {run : List Instr} {frame : Frame}
    (inserted : Splice.Inserted body index run woven) (executes : frame.Executes woven) :
    Stretch frame.code index run := by
  intro offset inside
  rw [executes.code_eq, ← inserted.fetch_inserted inside]
  simp

/-- The label behind the check is where the run ends. -/
theorem lookup_skip {slot : Nat}
    (inserted : Splice.Inserted body index
      (splice.instrs body.firstArgSlot routine (some slot) skip) woven) :
    ∃ position, woven.labels.lookup skip = some position ∧
      woven.code.instrs[position]? = some (.label skip) ∧
      position + 1 = index +
        (splice.instrs body.firstArgSlot routine (some slot) skip).length := by
  have run := Splice.instrs_eq_unlabelled splice body.firstArgSlot routine (some slot) skip
  have there : Code.DefinedAt (splice.instrs body.firstArgSlot routine (some slot) skip) skip
      (splice.unlabelled body.firstArgSlot routine (some slot) skip).length := by
    rw [run]
    simp [Code.DefinedAt]
  have defined := inserted.definedAt_iff.mpr (.inr ⟨_, there.lt, rfl, there⟩)
  refine ⟨_, (Body.lookup_labels inserted.uniqueLabels _ _).mpr defined, defined, ?_⟩
  rw [run]
  simp [Nat.add_assoc]

/-- Control comes to the dispatch call with the wrapper and the arguments on the stack, and the
wrapper in its slot; the call leaves there only what it returns. -/
theorem return_of_arrival {start call back : Frame × World}
    (inserted : Splice.Inserted body index
      (splice.instrs body.firstArgSlot routine slot? skip) woven)
    (slotsEq : routine.signature.totalSlots = splice.attachment.signature.totalSlots + 1)
    (executes : start.1.Executes woven) (atSite : start.1.pc = index)
    (arrives : interpreter.AdvancesBy (withWrappers other)
      (splice.lead body.firstArgSlot slot?).length start call)
    (returns : interpreter.Advances (withWrappers other) call back) :
    start.1.stack.length + 5 ≤ start.1.body.maxStack ∧ HasLocal start.1 slot? ∧
      ∃ result, interpreter.answer? (withWrappers other) call.1 call.2 =
          some (.ok result, back.2) ∧
        back.1 =
          { start.1 with
              pc := index + (splice.lead body.firstArgSlot slot?).length + 1
              stack := resultCells result ++ start.1.stack
              locals := keptLocals start.1.locals slot? start.2.nextRef } := by
  have stretch := stretch_of_inserted inserted executes
  rw [Splice.instrs_eq, ← atSite] at stretch
  obtain ⟨room, hasLocal, source, cells, lengthEq, callEq⟩ := arrives.of_lead stretch.left
  have dispatched : call.1.code[call.1.pc]? = some (.call .static routine) := by
    rw [callEq]
    exact stretch.right.head
  have loaded : call.1.stack = cells ++ .value start.2.nextRef :: start.1.stack := by rw [callEq]
  obtain ⟨result, answerEq, returned⟩ :=
    Advances.of_dispatch returns dispatched loaded (by rw [slotsEq, lengthEq])
  refine ⟨room, hasLocal, result, answerEq, ?_⟩
  rw [returned, callEq, ← atSite]
  rfl

/-- Behind a dispatch call that does not cancel, the run goes on to the instruction at the site. -/
theorem advancesBy_settling {frame : Frame} {now : World} {wrapper : Handle}
    (inserted : Splice.Inserted body index
      (splice.instrs body.firstArgSlot routine slot? skip) woven)
    (executes : frame.Executes woven)
    (behind : frame.pc = index + (splice.lead body.firstArgSlot slot?).length + 1)
    (room : slot?.isSome → frame.stack.length + 1 ≤ frame.body.maxStack)
    (held : ∀ slot, slot? = some slot → slot + 1 ≤ frame.body.maxLocals ∧
      frame.locals[slot]? = some (.value (.ref wrapper)))
    (uncancelled : slot?.isSome → now.heap.isCancelled (.ref wrapper) = .ok false)
    (budget : slot?.isSome → now.executed + settling slot? ≤ interpreter.limits.budget) :
    interpreter.AdvancesBy (withWrappers other) (settling slot?) (frame, now)
      ({ frame with
          pc := index + (splice.instrs body.firstArgSlot routine slot? skip).length },
        now.spent (settling slot?)) := by
  have stretch := stretch_of_inserted inserted executes
  rw [Splice.instrs_eq] at stretch
  have settles := stretch.right.tail
  rw [← behind] at settles
  cases slot? with
  | none =>
      have ended : frame.pc =
          index + (splice.instrs body.firstArgSlot routine none skip).length := by
        rw [behind, Splice.instrs_eq]
        simp [Splice.settle, Nat.add_assoc]
      rw [← ended]
      rfl
  | some slot =>
      obtain ⟨declared, heldHere⟩ := held slot rfl
      obtain ⟨position, known, there, positionEq⟩ := lookup_skip inserted
      rw [← positionEq]
      apply advancesBy_check
      · exact settles
      · exact budget rfl
      · exact room rfl
      · exact declared
      · exact heldHere
      · exact uncancelled rfl
      · rw [executes.labels_eq]
        exact known
      · rw [executes.code_eq]
        simpa using there

/-- An uncancelled visit ends at the instruction at the site, with the stack that it found and the
wrapper in its slot. -/
theorem Visit.passes {start call back : Frame × World}
    (visit : interpreter.Visit (withWrappers other) splice body.firstArgSlot slot? start call back)
    (inserted : Splice.Inserted body index
      (splice.instrs body.firstArgSlot routine slot? skip) woven)
    (slotsEq : routine.signature.totalSlots = splice.attachment.signature.totalSlots + 1)
    (executes : start.1.Executes woven) (atSite : start.1.pc = index) :
    (∃ source, call.2 = (start.2.withWrapper splice source).spent
        (splice.lead body.firstArgSlot slot?).length) ∧
      interpreter.AdvancesBy (withWrappers other) (settling slot?) back
        ({ start.1 with
            pc := index + (splice.instrs body.firstArgSlot routine slot? skip).length
            locals := keptLocals start.1.locals slot? start.2.nextRef },
          back.2.spent (settling slot?)) := by
  have stretch := stretch_of_inserted inserted executes
  rw [Splice.instrs_eq, ← atSite] at stretch
  obtain ⟨_, _, source, _, _, callEq⟩ := visit.arrives.of_lead stretch.left
  refine ⟨⟨source, by rw [callEq]⟩, ?_⟩
  obtain ⟨room, hasLocal, result, answerEq, returned⟩ :=
    return_of_arrival inserted slotsEq executes atSite visit.arrives visit.returns
  cases answerEq.symm.trans visit.void
  rcases back with ⟨back, answered⟩
  cases returned
  apply advancesBy_settling inserted
  · exact executes.withKept slot? start.2.nextRef _ _
  · rfl
  · exact fun _ => Nat.le_trans (Nat.add_le_add_left (by decide) _) room
  · intro slot kept
    exact ⟨(hasLocal slot kept).1, hasLocal.getElem?_keptLocals kept _⟩
  · exact visit.uncancelled
  · exact visit.budget

end Interpreter

/-- An execution of a body with what the woven frame has besides: the locals behind those of the
body, and whether control came by a branch to where it is. -/
structure Thread where
  frame : Frame
  extra : Array Slot
  world : World
  branched : Bool

namespace Thread

/-- The state of the woven body. -/
def image (woven : Body) (index shift : Nat) (thread : Thread) : Frame × World :=
  (thread.frame.image woven thread.extra (Splice.landing index shift thread.branched),
    thread.world)

/-- The frame executes the body, and the woven frame has all locals that its body declares. -/
structure Proper (body woven : Body) (thread : Thread) : Prop where
  executes : thread.frame.Executes body
  size_eq : body.maxLocals + thread.extra.size = woven.maxLocals

/-- The body takes a step, unless control has fallen through to the site: then the inserted run is
visited first, and only the slot of the wrapper and the world change. -/
inductive Goes (interpreter : Interpreter) (behaviour : Behaviour) (splice : Splice)
    (body woven : Body) (index shift : Nat) (slot? : Option Nat) : Thread → Thread → Prop
  | step {thread next after}
      (elsewhere : thread.frame.pc ≠ index ∨ thread.branched = true)
      (advances : interpreter.Advances behaviour (thread.frame, thread.world) (next, after)) :
      Goes interpreter behaviour splice body woven index shift slot? thread
        ⟨next, thread.extra, after, thread.frame.branching⟩
  | visit {thread call back}
      (atSite : thread.frame.pc = index) (fell : thread.branched = false)
      (visit : interpreter.Visit behaviour splice body.firstArgSlot slot?
        (thread.image woven index shift) call back) :
      Goes interpreter behaviour splice body woven index shift slot? thread
        ⟨thread.frame,
          keptLocals thread.extra (slot?.map (· - body.maxLocals)) thread.world.nextRef,
          back.2.spent (Interpreter.settling slot?), true⟩

variable {interpreter : Interpreter} {other : Behaviour} {splice : Splice} {body woven : Body}
  {index : Nat} {routine : MethodRef} {slot? : Option Nat} {skip : Label} {thread last : Thread}

theorem Proper.image_executes (proper : thread.Proper body woven) (index shift : Nat) :
    (thread.image woven index shift).1.Executes woven := by
  refine ⟨rfl, rfl, rfl, ?_⟩
  change (thread.frame.locals ++ thread.extra).size = woven.maxLocals
  rw [Array.size_append, proper.executes.size_eq, proper.size_eq]

/-- The slot of the wrapper is one behind the locals of the body. -/
theorem keptLocals_append (locals extra : Array Slot) (slot? : Option Nat) {wrapper : Value}
    (narrow : wrapper.slots = 1) (above : ∀ slot, slot? = some slot → locals.size ≤ slot) :
    keptLocals (locals ++ extra) slot? wrapper =
      locals ++ keptLocals extra (slot?.map (· - locals.size)) wrapper := by
  cases slot? with
  | none => rfl
  | some slot =>
      have behind : locals.size ≤ slot := above slot rfl
      simp only [keptLocals, Option.map_some, writeSlots, narrow]
      simpa using Array.setIfInBounds_append_right behind

/-- The woven body goes where the body goes, in one step or by a visit. -/
theorem Goes.image {run : List Instr} (proper : thread.Proper body woven)
    (runEq : run = splice.instrs body.firstArgSlot routine slot? skip)
    (inserted : Splice.Inserted body index run woven)
    (slotsEq : routine.signature.totalSlots = splice.attachment.signature.totalSlots + 1)
    (above : ∀ slot, slot? = some slot → body.maxLocals ≤ slot)
    (goes : Goes interpreter (withWrappers other) splice body woven index run.length slot? thread
      last) :
    last.Proper body woven ∧
      Relation.ReflTransGen (interpreter.Advances (withWrappers other))
        (thread.image woven index run.length) (last.image woven index run.length) := by
  cases goes with
  | @step next after elsewhere advances =>
      have stepped : interpreter.step (withWrappers other) thread.frame thread.world =
          (.ok (.running next), after) := advances
      have kept : ¬ interpreter.Overruns (withWrappers other) thread.frame thread.world := by
        rintro ⟨fault, last, failed, _⟩
        cases failed.symm.trans stepped
      have mirrors : Interpreter.MirrorsStep body woven thread.extra _ _ _ :=
        Interpreter.step_image proper.executes inserted kept
      obtain ⟨stepEq, executes⟩ := mirrors
      have place : Splice.landing index run.length thread.branched thread.frame.pc =
          Splice.relocated index run.length thread.frame.pc := by
        rcases elsewhere with away | came
        · unfold Splice.landing
          rw [Splice.entrance_of_ne away, ite_self]
        · rw [came]
          rfl
      have stateEq : thread.image woven index run.length =
          (thread.frame.image woven thread.extra (Splice.relocated index run.length),
            thread.world) := by
        simp only [Thread.image, Frame.image, place]
      rw [stepped] at stepEq executes
      refine ⟨⟨executes _ rfl, proper.size_eq⟩, .single ?_⟩
      rw [stateEq]
      exact stepEq
  | @visit call back atSite fell visit =>
      subst runEq
      have here : (thread.image woven index
          (splice.instrs body.firstArgSlot routine slot? skip).length).1.pc = index := by
        change Splice.landing index _ thread.branched thread.frame.pc = index
        rw [fell, atSite]
        exact Splice.entrance_site index _
      obtain ⟨_, settles⟩ := visit.passes inserted slotsEq (proper.image_executes index _) here
      have localsEq : keptLocals (thread.frame.locals ++ thread.extra) slot?
          thread.world.nextRef = _ :=
        keptLocals_append _ _ _ rfl (by rw [proper.executes.size_eq]; exact above)
      rw [proper.executes.size_eq] at localsEq
      refine ⟨⟨proper.executes, ?_⟩, ?_⟩
      · rw [size_keptLocals]
        exact proper.size_eq
      · apply (visit.arrives.reaches.tail visit.returns).trans
        have ended := settles.reaches
        change Relation.ReflTransGen _ back
          (⟨woven, _, _, _, thread.frame.stack,
            keptLocals (thread.frame.locals ++ thread.extra) slot? thread.world.nextRef⟩, _)
          at ended
        rw [localsEq] at ended
        simpa [Thread.image, Frame.image, Splice.landing, atSite, Splice.relocated_site] using ended

/-- Along every run of the body and the visits of the inserted run, the woven body runs beside it. -/
theorem reaches_image {run : List Instr} (proper : thread.Proper body woven)
    (runEq : run = splice.instrs body.firstArgSlot routine slot? skip)
    (inserted : Splice.Inserted body index run woven)
    (slotsEq : routine.signature.totalSlots = splice.attachment.signature.totalSlots + 1)
    (above : ∀ slot, slot? = some slot → body.maxLocals ≤ slot)
    (path : Relation.ReflTransGen
      (Goes interpreter (withWrappers other) splice body woven index run.length slot?) thread
      last) :
    last.Proper body woven ∧
      Relation.ReflTransGen (interpreter.Advances (withWrappers other))
        (thread.image woven index run.length) (last.image woven index run.length) := by
  induction path with
  | refl => exact ⟨proper, .refl⟩
  | tail _ goes ih =>
      obtain ⟨properHere, path⟩ := ih
      obtain ⟨properNext, next⟩ := goes.image properHere runEq inserted slotsEq above
      exact ⟨properNext, path.trans next⟩

end Thread

/-- The woven body is the body with a run inserted at `index` that is transparent as long as it does
not cancel. -/
structure Transparent (interpreter : Interpreter) (behaviour : Behaviour) (splice : Splice)
    (body : Body) (index : Nat) (run : List Instr) (slot? : Option Nat) (woven : Body) : Prop where
  inserted : Splice.Inserted body index run woven
  /-- The slot of the wrapper is new. -/
  fresh : ∀ slot, slot? = some slot →
    body.maxLocals ≤ slot ∧ body.requiredMaxLocals ≤ slot ∧ slot < woven.maxLocals
  /-- Both bodies are entered alike, the woven one as by falling through. -/
  enters : ∀ args,
    Mirrors (Splice.Roomier body woven) (Frame.Executes body)
      (Frame.image woven (.replicate (woven.maxLocals - body.maxLocals) .empty)
        (Splice.entrance index run.length))
      (Frame.enter body args) (Frame.enter woven args)
  /-- An instruction does the same at its relocated position, and goes on to where control falls
  through or, by a branch, to the relocated position. -/
  steps : ∀ frame extra world, frame.Executes body →
    ¬ interpreter.Overruns behaviour frame world →
    Interpreter.MirrorsStep body woven extra
      (Splice.landing index run.length frame.branching)
      (interpreter.step behaviour frame world)
      (interpreter.step behaviour
        (frame.image woven extra (Splice.relocated index run.length)) world)
  /-- A visit that does not cancel ends at the instruction at the site, with the stack that it found
  and the wrapper in its slot; before the dispatch call it only allocates the wrapper and its name,
  and behind it only instructions are counted. -/
  visits : ∀ start call back, start.1.Executes woven → start.1.pc = index →
    interpreter.Visit behaviour splice body.firstArgSlot slot? start call back →
    (∃ source, call.2 = (start.2.withWrapper splice source).spent
      (splice.lead body.firstArgSlot slot?).length) ∧
    interpreter.AdvancesBy behaviour (Interpreter.settling slot?) back
      ({ start.1 with
          pc := index + run.length
          locals := keptLocals start.1.locals slot? start.2.nextRef },
        back.2.spent (Interpreter.settling slot?))
  /-- The woven body runs beside the body, whatever the number of visits. -/
  runs : ∀ thread last, thread.Proper body woven →
    Relation.ReflTransGen
      (Thread.Goes interpreter behaviour splice body woven index run.length slot?) thread last →
    last.Proper body woven ∧
      Relation.ReflTransGen (interpreter.Advances behaviour)
        (thread.image woven index run.length) (last.image woven index run.length)

/-- An injection that was applied is transparent if it calls a routine that takes the wrapper and the
parameters of the method. -/
theorem transparent_of_apply (interpreter : Interpreter) (other : Behaviour) {splice : Splice}
    {body woven : Body} {index : Nat} {routine : MethodRef} {report : Splice.Report}
    (slotsEq : routine.signature.totalSlots = splice.attachment.signature.totalSlots + 1)
    (applied : splice.apply body index routine = (.ok report, woven)) :
    ∃ skip, Transparent interpreter (withWrappers other) splice body index
      (splice.instrs body.firstArgSlot routine (splice.wrapperLocal? body) skip)
      (splice.wrapperLocal? body) woven := by
  obtain ⟨_, skip, _, effect, _⟩ := Splice.applied_of_apply applied
  have above : ∀ slot, splice.wrapperLocal? body = some slot → body.maxLocals ≤ slot :=
    fun slot kept => (Splice.le_of_wrapperLocal? kept).1
  refine ⟨skip, ?_⟩
  exact
    { inserted := effect.inserted
      fresh := by
        intro slot kept
        obtain ⟨declared, required⟩ := Splice.le_of_wrapperLocal? kept
        rw [effect.maxLocals_eq, kept]
        exact ⟨declared, required, Nat.lt_succ_self slot⟩
      enters := Frame.enter_image effect.inserted
      steps := fun _ _ _ executes kept => Interpreter.step_image executes effect.inserted kept
      visits := fun _ _ _ executes atSite visit =>
        visit.passes effect.inserted slotsEq executes atSite
      runs := fun _ _ proper path =>
        Thread.reaches_image proper rfl effect.inserted slotsEq above path }

end Weaver.Machine

namespace Weaver.Loom

open Machine

/-- An uncancelled injection is transparent.  Where an event that is attached to the body is injected
into it, the woven body runs in lock-step with the body, for every behaviour of all methods other
than those of wrappers: whatever does not overrun the bounds that the body itself declares has the
same effect at its relocated position, and every visit of the inserted run that does not cancel
leaves nothing behind but a wrapper. -/
theorem inject_transparent (interpreter : Interpreter) (other : Behaviour) (loom after : Loom)
    (id : EventId) (index : Nat) (cancellable : Bool) (routine : RoutineId) (injections : Nat)
    (attached : (loom.events.get id).attachment =
      some { Attachment.ofBody loom.body with injections })
    (injected : loom.inject id index cancellable = (.ok routine, after)) :
    ∃ (splice : Splice) (skip : Label),
      splice = ⟨(loom.events.get id).name, { Attachment.ofBody loom.body with injections },
        cancellable⟩ ∧
      Transparent interpreter (withWrappers other) splice loom.body index
        (splice.instrs loom.body.firstArgSlot (after.proxies.get routine).ref
          (splice.wrapperLocal? loom.body) skip)
        (splice.wrapperLocal? loom.body) after.body := by
  obtain ⟨⟨report, applied⟩, signatureEq⟩ := apply_of_inject attached injected
  have slotsEq : (after.proxies.get routine).ref.signature.totalSlots =
      loom.body.signature.totalSlots + 1 := by
    change (after.proxies.get routine).signature.totalSlots = _
    rw [signatureEq]
    exact Nat.add_comm _ _
  obtain ⟨skip, transparent⟩ := transparent_of_apply interpreter other slotsEq applied
  exact ⟨_, skip, rfl, transparent⟩

/-- A loom for a body to which its one event is attached. -/
def ofBody (body : Body) : Loom where
  events := .ofList [{ Event.ofName "e" true 0 0 with attachment := some (.ofBody body) }]
  proxies := .ofSettings .standard
  body

/-- What steps that were followed say of a visit up to the return of its dispatch call. -/
theorem exists_call_of_follow {interpreter : Interpreter} {behaviour : Behaviour} {count : Nat}
    {start back : Frame × World} {routine : MethodRef}
    (followed : interpreter.follow behaviour (count + 1) start = some back)
    (calls : (interpreter.follow behaviour count start).bind (fun now => now.1.code[now.1.pc]?) =
      some (.call .static routine))
    (void : (interpreter.follow behaviour count start).bind (fun now =>
      (interpreter.answer? behaviour now.1 now.2).map Prod.fst) = some (.ok none)) :
    ∃ call, interpreter.AdvancesBy behaviour count start call ∧
      interpreter.Advances behaviour call back ∧
      interpreter.answer? behaviour call.1 call.2 = some (.ok none, back.2) := by
  obtain ⟨call, arrives, next, returns, rfl⟩ :=
    (Interpreter.advancesBy_iff_follow.mpr followed).split
  refine ⟨call, arrives, returns, ?_⟩
  rw [Interpreter.advancesBy_iff_follow.mp arrives, Option.bind_some] at calls void
  obtain ⟨args, below, result, _, answer, answered, _⟩ := Interpreter.Advances.of_call returns calls
  rw [answer, answered] at void ⊢
  cases void
  rfl

/-- The countdown with an injection that may cancel, about to enter the inserted run. -/
def countdownEntry : Frame × World :=
  let woven := ((ofBody .countdown).inject ⟨0⟩ 4 true).2.body
  (⟨woven, woven.code.instrs.toArray, woven.labels, 4, [.top, .value (.long 7)],
    #[.value (.int 3), .empty]⟩, .fresh .standard .empty)

/-- The behaviour of methods that do nothing. -/
def silent : Behaviour := fun _ _ world => (.ok none, world)

theorem inject_transparent_countdown :
    ((ofBody .countdown).inject ⟨0⟩ 4 true).1 = .ok ⟨1⟩ ∧
      ∃ run, Transparent ⟨.empty, .standard⟩ (withWrappers silent)
          ⟨"e", .ofBody .countdown, true⟩ .countdown 4 run (some 1)
          ((ofBody .countdown).inject ⟨0⟩ 4 true).2.body ∧
        ∃ call back, Interpreter.Visit ⟨.empty, .standard⟩ (withWrappers silent)
            ⟨"e", .ofBody .countdown, true⟩ 0 (some 1) countdownEntry call back ∧
          Relation.ReflTransGen
            (Interpreter.Advances ⟨.empty, .standard⟩ (withWrappers silent)) back
            ({ countdownEntry.1 with
                pc := 4 + run.length
                locals := #[.value (.int 3), .value (.ref ⟨0⟩)] },
              back.2.spent 4) := by
  have injected : ((ofBody .countdown).inject ⟨0⟩ 4 true).1 = .ok ⟨1⟩ := by decide +kernel
  obtain ⟨splice, skip, rfl, transparent⟩ := inject_transparent ⟨.empty, .standard⟩ silent
    (ofBody .countdown) ((ofBody .countdown).inject ⟨0⟩ 4 true).2 ⟨0⟩ 4 true ⟨1⟩ 0 rfl
    (Prod.ext injected rfl)
  have follows : (Interpreter.follow ⟨.empty, .standard⟩ (withWrappers silent) 10
      countdownEntry).isSome = true := by decide +kernel
  obtain ⟨back, followed⟩ := Option.isSome_iff_exists.mp follows
  have told : (Interpreter.follow ⟨.empty, .standard⟩ (withWrappers silent) 10
      countdownEntry).map (fun now => (now.2.heap.isCancelled (.ref ⟨0⟩), now.2.executed)) =
        some (.ok false, 10) := by decide +kernel
  rw [followed, Option.map_some] at told
  obtain ⟨uncancelled, executed⟩ := Prod.mk.inj (Option.some.inj told)
  have calls : (Interpreter.follow ⟨.empty, .standard⟩ (withWrappers silent) 9
      countdownEntry).bind (fun now => now.1.code[now.1.pc]?) =
        some (.call .static (((ofBody .countdown).inject ⟨0⟩ 4 true).2.proxies.get ⟨1⟩).ref) := by
    decide +kernel
  obtain ⟨call, arrives, returns, void⟩ :=
    exists_call_of_follow followed calls (by decide +kernel)
  have visit : Interpreter.Visit ⟨.empty, .standard⟩ (withWrappers silent)
      ⟨"e", .ofBody .countdown, true⟩ 0 (some 1) countdownEntry call back :=
    { arrives
      returns
      void
      uncancelled := fun _ => uncancelled
      budget := by
        rw [executed]
        decide }
  have settled := (transparent.visits countdownEntry call back ⟨rfl, rfl, rfl, by decide +kernel⟩
    rfl visit).2
  exact ⟨injected, _, transparent, call, back, visit, settled.reaches⟩

/-- A method whose constant does not fit on the stack that it declares. -/
def narrow : Body :=
  { Body.ofNames "a/B" "m" ⟨[], .long⟩ ⟨8⟩ with
    code := .ofList [.const (.long 2), .ret (some .long)]
    maxStack := 1 }

/-- The narrow body with an injection before its first instruction. -/
def narrowWoven (cancellable : Bool) : Body := ((ofBody narrow).inject ⟨0⟩ 0 cancellable).2.body

/-- The narrow body with an injection, entered without arguments. -/
def narrowEntry (cancellable : Bool) : Frame × World :=
  (⟨narrowWoven cancellable, (narrowWoven cancellable).code.instrs.toArray,
    (narrowWoven cancellable).labels, 0, [], .replicate (narrowWoven cancellable).maxLocals .empty⟩,
    .fresh .standard .empty)

/-- The routine that the injection into the narrow body dispatches to. -/
def narrowRoutine (cancellable : Bool) : MethodRef :=
  (((ofBody narrow).inject ⟨0⟩ 0 cancellable).2.proxies.get ⟨1⟩).ref

/-- An interpreter with a budget of nine instructions. -/
def brief : Interpreter := ⟨.empty, ⟨9, 1, 0⟩⟩

/-- The behaviour of methods that return a number whatever their type. -/
def answering : Behaviour := fun _ _ world => (.ok (some (.int 1)), world)

/-- A visit that does not cancel is stuck behind its dispatch call if the budget is spent there. -/
theorem exists_stuck_of_brief :
    ∃ call back : Frame × World,
      Relation.ReflTransGen (brief.Advances (withWrappers silent)) (narrowEntry true) call ∧
      call.1.code[call.1.pc]? = some (.call .static (narrowRoutine true)) ∧
      brief.Advances (withWrappers silent) call back ∧
      brief.answer? (withWrappers silent) call.1 call.2 = some (.ok none, back.2) ∧
      back.2.heap.isCancelled (narrowEntry true).2.nextRef = .ok false ∧
      back.1.pc = 9 ∧ ∀ next, ¬ brief.Advances (withWrappers silent) back next := by
  have follows : (brief.follow (withWrappers silent) 9 (narrowEntry true)).isSome = true := by
    decide +kernel
  obtain ⟨back, followed⟩ := Option.isSome_iff_exists.mp follows
  have calls : (brief.follow (withWrappers silent) 8 (narrowEntry true)).bind
      (fun now => now.1.code[now.1.pc]?) = some (.call .static (narrowRoutine true)) := by
    decide +kernel
  obtain ⟨call, arrives, returns, void⟩ := exists_call_of_follow followed calls (by decide +kernel)
  rw [Interpreter.advancesBy_iff_follow.mp arrives, Option.bind_some] at calls
  have told : (brief.follow (withWrappers silent) 9 (narrowEntry true)).map (fun now =>
      (now.2.heap.isCancelled (narrowEntry true).2.nextRef, now.1.pc)) = some (.ok false, 9) := by
    decide +kernel
  rw [followed, Option.map_some] at told
  obtain ⟨uncancelled, pcEq⟩ := Prod.mk.inj (Option.some.inj told)
  refine ⟨call, back, arrives.reaches, calls, returns, void, uncancelled, pcEq, ?_⟩
  intro next advances
  have once : brief.AdvancesBy (withWrappers silent) 1 back next := ⟨next, advances, rfl⟩
  have further : brief.follow (withWrappers silent) 10 (narrowEntry true) = some next :=
    Interpreter.advancesBy_iff_follow.mp
      ((Interpreter.advancesBy_iff_follow.mpr followed).trans once)
  have stuck : brief.follow (withWrappers silent) 10 (narrowEntry true) = none := by decide +kernel
  rw [stuck] at further
  cases further

/-- A value that the dispatch call returns is left on the stack. -/
theorem exists_value_of_answering :
    ∃ call back : Frame × World,
      Relation.ReflTransGen (Interpreter.Advances ⟨.empty, .standard⟩ (withWrappers answering))
        (narrowEntry false) call ∧
      call.1.code[call.1.pc]? = some (.call .static (narrowRoutine false)) ∧
      Interpreter.Advances ⟨.empty, .standard⟩ (withWrappers answering) call back ∧
      back.1.stack = [.value (.int 1)] := by
  have follows : (Interpreter.follow ⟨.empty, .standard⟩ (withWrappers answering) 7
      (narrowEntry false)).isSome = true := by decide +kernel
  obtain ⟨back, followed⟩ := Option.isSome_iff_exists.mp follows
  have whole : Interpreter.AdvancesBy ⟨.empty, .standard⟩ (withWrappers answering) (6 + 1)
      (narrowEntry false) back := Interpreter.advancesBy_iff_follow.mpr followed
  obtain ⟨call, arrives, next, returns, rfl⟩ := whole.split
  have calls : (Interpreter.follow ⟨.empty, .standard⟩ (withWrappers answering) 6
      (narrowEntry false)).bind (fun now => now.1.code[now.1.pc]?) =
        some (.call .static (narrowRoutine false)) := by decide +kernel
  rw [Interpreter.advancesBy_iff_follow.mp arrives, Option.bind_some] at calls
  have left : (Interpreter.follow ⟨.empty, .standard⟩ (withWrappers answering) 7
      (narrowEntry false)).map (fun now => now.1.stack) = some [.value (.int 1)] := by
    decide +kernel
  rw [followed, Option.map_some] at left
  exact ⟨call, next, arrives.reaches, calls, returns, Option.some.inj left⟩

/-- The exceptions are needed.  An instruction that overruns the bounds of the body may succeed in the
woven body, which declares more; a visit does not pass if the budget is spent when its dispatch
call returns; and a value that the void dispatch call returns stays on the stack. -/
theorem not_transparent_of_narrow :
    (¬ ∀ (interpreter : Interpreter) (other : Behaviour) (loom after : Loom) (id : EventId)
      (index : Nat) (cancellable : Bool) (routine : RoutineId) (injections : Nat),
      (loom.events.get id).attachment = some { Attachment.ofBody loom.body with injections } →
      loom.inject id index cancellable = (.ok routine, after) →
      ∀ frame extra world, frame.Executes loom.body →
        Interpreter.MirrorsStep loom.body after.body extra
          (Splice.landing index (after.body.code.length - loom.body.code.length) frame.branching)
          (interpreter.step (withWrappers other) frame world)
          (interpreter.step (withWrappers other)
            (frame.image after.body extra
              (Splice.relocated index (after.body.code.length - loom.body.code.length)))
            world)) ∧
    (¬ ∀ (interpreter : Interpreter) (other : Behaviour) (loom after : Loom) (id : EventId)
      (index : Nat) (cancellable : Bool) (routine : RoutineId) (injections : Nat),
      (loom.events.get id).attachment = some { Attachment.ofBody loom.body with injections } →
      loom.inject id index cancellable = (.ok routine, after) →
      ∀ start call back : Frame × World, start.1.Executes after.body → start.1.pc = index →
        Relation.ReflTransGen (interpreter.Advances (withWrappers other)) start call →
        call.1.code[call.1.pc]? = some (.call .static (after.proxies.get routine).ref) →
        interpreter.Advances (withWrappers other) call back →
        interpreter.answer? (withWrappers other) call.1 call.2 = some (.ok none, back.2) →
        back.2.heap.isCancelled start.2.nextRef = .ok false →
        ∃ last : Frame × World, last.1.pc =
            index + (after.body.code.length - loom.body.code.length) ∧
          Relation.ReflTransGen (interpreter.Advances (withWrappers other)) back last) ∧
    ¬ ∀ (interpreter : Interpreter) (other : Behaviour) (loom after : Loom) (id : EventId)
      (index : Nat) (routine : RoutineId) (injections : Nat),
      (loom.events.get id).attachment = some { Attachment.ofBody loom.body with injections } →
      loom.inject id index false = (.ok routine, after) →
      ∀ start call back : Frame × World, start.1.Executes after.body → start.1.pc = index →
        Relation.ReflTransGen (interpreter.Advances (withWrappers other)) start call →
        call.1.code[call.1.pc]? = some (.call .static (after.proxies.get routine).ref) →
        interpreter.Advances (withWrappers other) call back →
        back.1.stack = start.1.stack := by
  have injected : ∀ cancellable, ((ofBody narrow).inject ⟨0⟩ 0 cancellable).1 = .ok ⟨1⟩ := by
    decide +kernel
  refine ⟨?_, ?_, ?_⟩
  · intro lockstep
    have mirrors := lockstep ⟨.empty, .standard⟩ silent (ofBody narrow)
      ((ofBody narrow).inject ⟨0⟩ 0 false).2 ⟨0⟩ 0 false ⟨1⟩ 0 rfl
      (Prod.ext (injected false) rfl)
      ⟨narrow, narrow.code.instrs.toArray, narrow.labels, 0, [], #[]⟩ #[]
      (.fresh .standard .empty) ⟨rfl, rfl, rfl, rfl⟩
    have same := congrArg (fun result => result.1.toOption.isSome) mirrors.1
    revert same
    decide +kernel
  · intro passes
    obtain ⟨call, back, arrives, calls, returns, void, uncancelled, pcEq, stuck⟩ :=
      exists_stuck_of_brief
    obtain ⟨last, lastEq, path⟩ := passes brief silent (ofBody narrow)
      ((ofBody narrow).inject ⟨0⟩ 0 true).2 ⟨0⟩ 0 true ⟨1⟩ 0 rfl
      (Prod.ext (injected true) rfl) (narrowEntry true) call back
      ⟨rfl, rfl, rfl, by decide +kernel⟩ rfl arrives calls returns void uncancelled
    rcases path.cases_head with rfl | ⟨next, advances, _⟩
    · rw [pcEq] at lastEq
      revert lastEq
      decide +kernel
    · exact stuck next advances
  · intro keeps
    obtain ⟨call, back, arrives, calls, returns, left⟩ := exists_value_of_answering
    have kept := keeps ⟨.empty, .standard⟩ answering (ofBody narrow)
      ((ofBody narrow).inject ⟨0⟩ 0 false).2 ⟨0⟩ 0 ⟨1⟩ 0 rfl (Prod.ext (injected false) rfl)
      (narrowEntry false) call back ⟨rfl, rfl, rfl, by decide +kernel⟩ rfl arrives calls returns
    rw [left] at kept
    cases kept

end Weaver.Loom
