import Weaver.Proofs.Machine.Arguments
import Weaver.Proofs.Machine.Wrappers
import Weaver.Proofs.Splice.Mirror
import Weaver.Splice.Run

/-!
# Visits of an inserted run

Control that falls through to the site first executes the inserted run.  Up to the dispatch call the
run only constructs the wrapper, keeps it, and loads the arguments; behind it the run asks the
wrapper whether it was cancelled.  A visit whose dispatch returns and does not cancel leaves the
stack as it was, and the locals but for the slot of the wrapper.
-/

namespace Weaver.Splice

/-- The instructions of the run before the dispatch call. -/
def lead (splice : Splice) (firstArgSlot : Nat) (slot? : Option Nat) : List Instr :=
  splice.construct ++ (slot?.map keep).getD [] ++
    Run.loadArgs splice.attachment.signature firstArgSlot

/-- The instructions of the run behind the dispatch call. -/
def settle (splice : Splice) (slot? : Option Nat) (skip : Label) : List Instr :=
  (slot?.map fun slot => splice.check slot skip).getD []

/-- The run calls the dispatch routine once. -/
theorem instrs_eq (splice : Splice) (firstArgSlot : Nat) (routine : MethodRef)
    (slot? : Option Nat) (skip : Label) :
    splice.instrs firstArgSlot routine slot? skip =
      splice.lead firstArgSlot slot? ++ .call .static routine :: splice.settle slot? skip := by
  cases slot? <;> simp [instrs, lead, settle, dispatch]

end Weaver.Splice

namespace Weaver.Machine

/-- The world with the wrapper of an injection and the name of its event behind all other objects. -/
def World.withWrapper (world : World) (splice : Splice) (source : Value) : World :=
  (world.allocated (.wrapper
    ⟨splice.attachment.wrapper, splice.event, source, splice.cancellable, false, none⟩)).allocated
    (.string splice.event)

/-- The locals with the wrapper in its slot, if it is kept. -/
def keptLocals (locals : Array Slot) (slot? : Option Nat) (wrapper : Value) : Array Slot :=
  match slot? with
  | some slot => writeSlots locals slot wrapper
  | none => locals

@[simp]
theorem size_keptLocals (locals : Array Slot) (slot? : Option Nat) (wrapper : Value) :
    (keptLocals locals slot? wrapper).size = locals.size := by
  cases slot? <;> simp [keptLocals]

/-- A frame that keeps the wrapper executes its body, whatever its position and its stack are. -/
theorem Frame.Executes.withKept {frame : Frame} {body : Body} (executes : frame.Executes body)
    (slot? : Option Nat) (wrapper : Value) (pc : Nat) (stack : List Slot) :
    Frame.Executes body
      { frame with pc, stack, locals := keptLocals frame.locals slot? wrapper } :=
  ⟨executes.body_eq, executes.code_eq, executes.labels_eq,
    (size_keptLocals _ _ _).trans executes.size_eq⟩

namespace Interpreter

variable {interpreter : Interpreter} {other : Behaviour} {frame : Frame} {now : World}
  {last : Frame × World} {splice : Splice}

/-- The receiver of the method, or null, is pushed. -/
theorem Advances.of_source (step : interpreter.Advances (withWrappers other) (frame, now) last)
    (fetched : frame.code[frame.pc]? = some splice.source) :
    ∃ source : Value, source.kind = .reference ∧
      last = (frame.behind (.value source :: frame.stack), now.counted) := by
  unfold Splice.source at fetched
  split at fetched
  · obtain ⟨_, _, lastEq⟩ := (advances_const_iff fetched rfl).mp step
    exact ⟨.null, rfl, lastEq⟩
  · obtain ⟨source, held, _, _, lastEq⟩ := (advances_load_iff fetched).mp step
    have kindEq : source.kind = .reference := (Frame.loadLocal_eq_ok_iff.mp held).2.1
    have narrow : source.slots = 1 := Value.slots_of_reference kindEq
    rw [Value.cells_of_narrow narrow] at lastEq
    exact ⟨source, kindEq, lastEq⟩

/-- The constructor takes its arguments off the stack and fills in the wrapper. -/
theorem Advances.of_constructor {world : World} {source : Value} {rest : List Slot}
    (step : interpreter.Advances (withWrappers other)
      (frame, (world.allocated (.wrapper (.fresh splice.attachment.wrapper))).allocated
        (.string splice.event)) last)
    (fetched : frame.code[frame.pc]? =
      some (.call .special splice.attachment.wrapper.constructor))
    (sourceKind : source.kind = .reference)
    (stackEq : frame.stack = .value (.int (if splice.cancellable then 1 else 0)) ::
      .value source ::
      .value (world.allocated (.wrapper (.fresh splice.attachment.wrapper))).nextRef ::
      .value world.nextRef :: rest) :
    last = (frame.behind rest, (world.withWrapper splice source).counted) := by
  obtain ⟨args, below, result, popped, _, answered, pushed⟩ := Advances.of_call step fetched
  have sourceNarrow : source.slots = 1 := Value.slots_of_reference sourceKind
  have kinds : splice.attachment.wrapper.constructor.signature.params.map Ty.kind? =
      [(world.allocated (.wrapper (.fresh splice.attachment.wrapper))).nextRef, source,
        .int (if splice.cancellable then 1 else 0)].map fun value => some value.kind := by
    simp only [List.map_cons, sourceKind]
    rfl
  have taken : Frame.popArgs { frame with pc := frame.pc + 1 }
      splice.attachment.wrapper.constructor true = .ok ([world.nextRef, _, _, _], _) :=
    Frame.popArgs_receiver_eq_ok kinds rfl
      (by simp [stackEq, Value.cells_of_narrow sourceNarrow]; rfl)
  cases taken.symm.trans popped
  rw [withWrappers_constructor] at answered
  obtain ⟨resultEq, afterEq⟩ := Prod.mk.inj ((construct_allocated world.counted
    splice.attachment.wrapper splice.event source splice.cancellable).symm.trans answered)
  cases resultEq
  exact Prod.ext (Except.ok.inj pushed).symm afterEq.symm

/-- The wrapper is allocated and pushed twice, and the name of its event above it. -/
theorem AdvancesBy.of_front
    (steps : interpreter.AdvancesBy (withWrappers other) 3 (frame, now) last)
    (stretch : Stretch frame.code frame.pc splice.construct) :
    last =
      ({ frame with
          pc := frame.pc + 3
          stack := .value (now.allocated (.wrapper (.fresh splice.attachment.wrapper))).nextRef ::
            .value now.nextRef :: .value now.nextRef :: frame.stack },
        ((now.spent 3).allocated (.wrapper (.fresh splice.attachment.wrapper))).allocated
          (.string splice.event)) := by
  obtain ⟨s1, new, s2, dup, s3, name, rfl⟩ := steps
  have pushes : Frame.act { frame with pc := frame.pc + 1 } now.counted
      (.new splice.attachment.wrapper.className) =
        Frame.pushNew { frame with pc := frame.pc + 1 } now.counted
          (.wrapper (.fresh splice.attachment.wrapper)) :=
    congrArg (Frame.pushNew _ _) (ofClass_className _)
  obtain ⟨_, rfl⟩ := Advances.of_pushNew new stretch.head pushes
  cases Advances.of_dup dup stretch.tail.head rfl
  obtain ⟨_, rfl⟩ := Advances.of_pushNew name stretch.tail.tail.head rfl
  rfl

/-- The wrapper is constructed, by way of a stack that is five slots higher, and left there. -/
theorem AdvancesBy.of_construct
    (steps : interpreter.AdvancesBy (withWrappers other) splice.construct.length (frame, now) last)
    (stretch : Stretch frame.code frame.pc splice.construct) :
    frame.stack.length + 5 ≤ frame.body.maxStack ∧
      ∃ source, last =
        ({ frame with
            pc := frame.pc + splice.construct.length
            stack := .value now.nextRef :: frame.stack },
          (now.withWrapper splice source).spent splice.construct.length) := by
  have parts : interpreter.AdvancesBy (withWrappers other) (3 + 3) (frame, now) last := steps
  obtain ⟨middle, front, s4, receiver, s5, flag, s6, call, rfl⟩ := parts.split
  cases front.of_front stretch
  have rest := stretch.tail.tail.tail
  obtain ⟨source, sourceKind, rfl⟩ := Advances.of_source receiver rest.head
  replace rest := rest.tail
  obtain ⟨_, room, rfl⟩ := (advances_const_iff rest.head rfl).mp flag
  have called : interpreter.Advances (withWrappers other)
      ({ frame with
          pc := frame.pc + 5
          stack := .value (.int (if splice.cancellable then 1 else 0)) :: .value source ::
            .value ((now.spent 5).allocated (.wrapper (.fresh splice.attachment.wrapper))).nextRef ::
            .value (now.spent 5).nextRef :: .value now.nextRef :: frame.stack },
        ((now.spent 5).allocated (.wrapper (.fresh splice.attachment.wrapper))).allocated
          (.string splice.event)) s6 := call
  cases Advances.of_constructor called rest.tail.head sourceKind rfl
  exact ⟨room, source, rfl⟩

/-- The wrapper is put into its slot and left on the stack. -/
theorem AdvancesBy.of_keep {behaviour : Behaviour} {slot : Nat} {handle : Handle}
    {rest : List Slot}
    (steps : interpreter.AdvancesBy behaviour 2 (frame, now) last)
    (stretch : Stretch frame.code frame.pc (Splice.keep slot))
    (stackEq : frame.stack = .value (.ref handle) :: rest) :
    slot + 1 ≤ frame.body.maxLocals ∧ slot < frame.locals.size ∧
      last =
        ({ frame with
            pc := frame.pc + 2
            locals := writeSlots frame.locals slot (.ref handle) },
          now.spent 2) := by
  obtain ⟨s1, store, s2, load, rfl⟩ := steps
  obtain ⟨value, below, kindEq, belowEq, inside, rfl⟩ := Advances.of_store store stretch.head
  have narrow : value.slots = 1 := Value.slots_of_reference kindEq
  rw [stackEq, Value.cells_of_narrow narrow] at belowEq
  cases belowEq
  obtain ⟨read, held, _, _, rfl⟩ := (advances_load_iff stretch.tail.head).mp load
  obtain ⟨_, _, found⟩ := Frame.loadLocal_eq_ok_iff.mp held
  have within : slot < frame.locals.size := by
    obtain ⟨bound, _⟩ := Array.getElem?_eq_some_iff.mp found
    simpa using bound
  cases (getElem?_writeSlots_self (.ref handle) within).symm.trans found
  refine ⟨inside, within, ?_⟩
  rw [stackEq]
  rfl

/-- The arguments are pushed, as many slots as the parameters take. -/
theorem AdvancesBy.of_loadArgs {behaviour : Behaviour} {signature : Signature} {first : Nat}
    (steps : interpreter.AdvancesBy behaviour (Run.loadArgs signature first).length (frame, now)
      last)
    (stretch : Stretch frame.code frame.pc (Run.loadArgs signature first)) :
    ∃ cells : List Slot, cells.length = signature.totalSlots ∧
      last = ({ frame with
          pc := frame.pc + (Run.loadArgs signature first).length
          stack := cells ++ frame.stack },
        now.spent (Run.loadArgs signature first).length) := by
  unfold Run.loadArgs at steps stretch ⊢
  rw [List.length_map] at steps ⊢
  obtain ⟨cells, lengthEq, lastEq⟩ := steps.of_loads stretch
  exact ⟨cells, lengthEq.trans (Signature.sum_parameterSlots _ _), lastEq⟩

/-- The slot of the wrapper is one that the locals have. -/
def HasLocal (frame : Frame) (slot? : Option Nat) : Prop :=
  ∀ slot, slot? = some slot → slot + 1 ≤ frame.body.maxLocals ∧ slot < frame.locals.size

theorem HasLocal.getElem?_keptLocals {slot? : Option Nat} {slot : Nat}
    (hasLocal : HasLocal frame slot?) (kept : slot? = some slot) (wrapper : Value) :
    (keptLocals frame.locals slot? wrapper)[slot]? = some (.value wrapper) := by
  rw [kept]
  exact getElem?_writeSlots_self wrapper (hasLocal slot kept).2

/-- The wrapper is constructed and left on the stack, and in its slot if it is kept. -/
theorem AdvancesBy.of_kept {slot? : Option Nat}
    (steps : interpreter.AdvancesBy (withWrappers other)
      (splice.construct ++ (slot?.map Splice.keep).getD []).length (frame, now) last)
    (stretch : Stretch frame.code frame.pc
      (splice.construct ++ (slot?.map Splice.keep).getD [])) :
    frame.stack.length + 5 ≤ frame.body.maxStack ∧ HasLocal frame slot? ∧
      ∃ source, last =
        ({ frame with
            pc := frame.pc + (splice.construct ++ (slot?.map Splice.keep).getD []).length
            stack := .value now.nextRef :: frame.stack
            locals := keptLocals frame.locals slot? now.nextRef },
          (now.withWrapper splice source).spent
            (splice.construct ++ (slot?.map Splice.keep).getD []).length) := by
  rw [List.length_append] at steps ⊢
  obtain ⟨constructed, construct, keeps⟩ := steps.split
  obtain ⟨room, source, rfl⟩ := construct.of_construct stretch.left
  cases slot? with
  | none =>
      cases keeps
      refine ⟨room, ?_, source, rfl⟩
      rintro _ ⟨⟩
  | some slot =>
      obtain ⟨inside, within, rfl⟩ := keeps.of_keep stretch.right rfl
      refine ⟨room, ?_, source, rfl⟩
      rintro _ ⟨⟩
      exact ⟨inside, within⟩

/-- Before the dispatch call the run has put the wrapper and the arguments on the stack, the wrapper
into its slot, and nothing but the wrapper and the name of the event on the heap. -/
theorem AdvancesBy.of_lead {firstArgSlot : Nat} {slot? : Option Nat}
    (steps : interpreter.AdvancesBy (withWrappers other)
      (splice.lead firstArgSlot slot?).length (frame, now) last)
    (stretch : Stretch frame.code frame.pc (splice.lead firstArgSlot slot?)) :
    frame.stack.length + 5 ≤ frame.body.maxStack ∧ HasLocal frame slot? ∧
      ∃ source cells, cells.length = splice.attachment.signature.totalSlots ∧
        last =
          ({ frame with
              pc := frame.pc + (splice.lead firstArgSlot slot?).length
              stack := cells ++ .value now.nextRef :: frame.stack
              locals := keptLocals frame.locals slot? now.nextRef },
            (now.withWrapper splice source).spent (splice.lead firstArgSlot slot?).length) := by
  unfold Splice.lead at steps stretch ⊢
  rw [List.length_append] at steps ⊢
  obtain ⟨kept, front, loads⟩ := steps.split
  obtain ⟨room, hasLocal, source, rfl⟩ := front.of_kept stretch.left
  obtain ⟨cells, lengthEq, rfl⟩ := loads.of_loadArgs stretch.right
  refine ⟨room, hasLocal, source, cells, lengthEq, ?_⟩
  simp [Nat.add_assoc]

/-- A dispatch call takes the wrapper and the arguments off the stack, and leaves there only what it
returns. -/
theorem Advances.of_dispatch {behaviour : Behaviour} {routine : MethodRef} {cells rest : List Slot}
    {wrapper : Slot} (step : interpreter.Advances behaviour (frame, now) last)
    (fetched : frame.code[frame.pc]? = some (.call .static routine))
    (stackEq : frame.stack = cells ++ wrapper :: rest)
    (slotsEq : routine.signature.totalSlots = cells.length + 1) :
    ∃ result, interpreter.answer? behaviour frame now = some (.ok result, last.2) ∧
      last.1 = frame.behind (resultCells result ++ rest) := by
  obtain ⟨args, below, result, popped, answerEq, answered, pushed⟩ := Advances.of_call step fetched
  rw [answered] at answerEq
  refine ⟨result, answerEq, ?_⟩
  have dropped : frame.stack.drop routine.signature.totalSlots = rest := by
    rw [stackEq, slotsEq, ← List.drop_drop, List.drop_left]
    rfl
  have belowEq : below = frame.behind (frame.stack.drop routine.signature.totalSlots) :=
    Frame.stack_of_popArgs popped
  rw [dropped] at belowEq
  rw [belowEq] at pushed
  cases result with
  | none => exact (Except.ok.inj pushed).symm
  | some value => exact (Frame.push_eq_ok_iff.mp pushed).2

/-- The run loads the wrapper from its slot and asks it whether it was cancelled. -/
theorem advances_ask (interpreter : Interpreter) (other : Behaviour) {slot : Nat}
    {handle : Handle} {skip : Label} {cancelled : Bool}
    (stretch : Stretch frame.code frame.pc (splice.check slot skip))
    (budget : now.executed + 2 ≤ interpreter.limits.budget)
    (room : frame.stack.length + 1 ≤ frame.body.maxStack)
    (inside : slot + 1 ≤ frame.body.maxLocals)
    (held : frame.locals[slot]? = some (.value (.ref handle)))
    (told : now.heap.isCancelled (.ref handle) = .ok cancelled) :
    interpreter.Advances (withWrappers other) (frame, now)
        (frame.behind (.value (.ref handle) :: frame.stack), now.counted) ∧
      interpreter.Advances (withWrappers other)
        (frame.behind (.value (.ref handle) :: frame.stack), now.counted)
        ({ frame with pc := frame.pc + 2, stack := .value (.ofBool cancelled) :: frame.stack },
          now.spent 2) := by
  have loaded : frame.loadLocal .reference slot = .ok (.ref handle) :=
    Frame.loadLocal_eq_ok_iff.mpr ⟨inside, rfl, held⟩
  constructor
  · exact (advances_load_iff stretch.head).mpr ⟨_, loaded, by omega, room, rfl⟩
  · apply advances_of_isCancelled
    · exact stretch.tail.head
    · rw [World.counted_executed]
      omega
    · rfl
    · exact room
    · exact told

/-- Where the wrapper was not cancelled, the run asks it and goes on behind its label. -/
theorem advancesBy_check {slot position : Nat} {handle : Handle} {skip : Label}
    (stretch : Stretch frame.code frame.pc (splice.check slot skip))
    (budget : now.executed + 4 ≤ interpreter.limits.budget)
    (room : frame.stack.length + 1 ≤ frame.body.maxStack)
    (inside : slot + 1 ≤ frame.body.maxLocals)
    (held : frame.locals[slot]? = some (.value (.ref handle)))
    (uncancelled : now.heap.isCancelled (.ref handle) = .ok false)
    (known : frame.labels.lookup skip = some position)
    (there : frame.code[position]? = some (.label skip)) :
    interpreter.AdvancesBy (withWrappers other) 4 (frame, now)
      ({ frame with pc := position + 1 }, now.spent 4) := by
  obtain ⟨load, ask⟩ := advances_ask interpreter other stretch (by omega) room inside held uncancelled
  have tested : Frame.test
      { frame with pc := frame.pc + 3, stack := .value (.ofBool false) :: frame.stack } .ifZero =
        .ok ((0 : Int32) == 0, { frame with pc := frame.pc + 3 }) :=
    Frame.test_ifZero rfl
  have skips : interpreter.Advances (withWrappers other)
      ({ frame with pc := frame.pc + 2, stack := .value (.ofBool false) :: frame.stack },
        now.spent 2)
      ({ frame with pc := position }, (now.spent 2).counted) := by
    apply advances_of_branch
    · exact stretch.tail.tail.head
    · simp only [World.spent]
      omega
    · exact tested
    · exact known
  have passes : interpreter.Advances (withWrappers other)
      ({ frame with pc := position }, (now.spent 2).counted)
      ({ frame with pc := position + 1 }, now.spent 4) := by
    apply (advances_label_iff there).mpr
    simp only [World.spent, World.counted]
    exact ⟨by omega, rfl⟩
  exact ⟨_, load, _, ask, _, skips, _, passes, rfl⟩

end Interpreter

end Weaver.Machine
