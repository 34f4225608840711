import Weaver.Proofs.Machine.Cells
import Weaver.Proofs.Machine.Execution

/-!
# Straight-line code

What the instructions of generated code do when a frame goes on behind them: constants, loads and
stores, new objects and calls, each with the stack and the world that it leaves.
-/

namespace Weaver.Machine

/-- The heap may hold one more object. -/
def Heap.HasRoom (heap : Heap) : Prop :=
  ¬ (0 < heap.limit ∧ heap.limit ≤ heap.objects.size) ∧ heap.objects.size < UInt32.size

/-- The world with one more object on the heap. -/
def World.allocated (world : World) (object : HeapObject) : World :=
  { world with heap := { world.heap with objects := world.heap.objects.push object } }

/-- The reference to the object that is allocated next. -/
def World.nextRef (world : World) : Value := .ref ⟨world.heap.objects.size⟩

/-- An allocation succeeds exactly if there is room, and puts the object behind all others. -/
theorem World.alloc_eq_ok_iff {world after : World} {object : HeapObject} {value : Value} :
    world.alloc object = (.ok value, after) ↔
      world.heap.HasRoom ∧ value = world.nextRef ∧ after = world.allocated object := by
  unfold World.alloc Heap.alloc Heap.HasRoom nextRef allocated
  by_cases full : 0 < world.heap.limit ∧ world.heap.limit ≤ world.heap.objects.size
  · simp [full]
  · by_cases exhausted : UInt32.size ≤ world.heap.objects.size
    · simp [full, exhausted, Nat.not_lt.mpr exhausted]
    · simp only [full, exhausted, if_false, not_false_eq_true, true_and, Prod.mk.injEq,
        Except.ok.injEq, Nat.lt_of_not_le exhausted]
      exact and_congr eq_comm eq_comm

/-- The instructions stand in the code, one behind the other from the position on. -/
def Stretch (code : Array Instr) (pc : Nat) (instrs : List Instr) : Prop :=
  ∀ offset < instrs.length, code[pc + offset]? = instrs[offset]?

namespace Stretch

variable {code : Array Instr} {pc : Nat} {instr : Instr} {front rest : List Instr}

theorem head (stretch : Stretch code pc (instr :: rest)) : code[pc]? = some instr :=
  stretch 0 (Nat.zero_lt_succ _)

theorem tail (stretch : Stretch code pc (instr :: rest)) : Stretch code (pc + 1) rest := by
  intro offset inside
  rw [Nat.add_assoc, Nat.add_comm 1]
  exact stretch (offset + 1) (Nat.succ_lt_succ inside)

theorem left (stretch : Stretch code pc (front ++ rest)) : Stretch code pc front := by
  intro offset inside
  rw [stretch offset (by rw [List.length_append]; omega), List.getElem?_append_left inside]

theorem right (stretch : Stretch code pc (front ++ rest)) :
    Stretch code (pc + front.length) rest := by
  intro offset inside
  rw [Nat.add_assoc, stretch (front.length + offset) (by rw [List.length_append]; omega),
    List.getElem?_append_right (Nat.le_add_right _ _), Nat.add_sub_cancel_left]

end Stretch

namespace Frame

/-- The frame behind its next instruction, with another stack. -/
def behind (frame : Frame) (stack : List Slot) : Frame :=
  { frame with pc := frame.pc + 1, stack }

theorem test_ifZero {frame : Frame} {number : Int32} {rest : List Slot}
    (stackEq : frame.stack = .value (.int number) :: rest) :
    frame.test .ifZero = .ok (number == 0, frame.withStack rest) := by
  simp [test, popInt_eq_ok stackEq, bind, Except.bind, pure, Except.pure]

theorem test_ifNonZero {frame : Frame} {number : Int32} {rest : List Slot}
    (stackEq : frame.stack = .value (.int number) :: rest) :
    frame.test .ifNonZero = .ok (number != 0, frame.withStack rest) := by
  simp [test, popInt_eq_ok stackEq, bind, Except.bind, pure, Except.pure]

/-- A push with what follows it goes on exactly if the declared stack has room. -/
theorem push_eq_ok_iff {frame next : Frame} {value : Value} :
    frame.push value = .ok next ↔
      frame.stack.length + value.slots ≤ frame.body.maxStack ∧
        next = frame.withStack (value.cells ++ frame.stack) := by
  rw [push_eq]
  split
  · rename_i room
    simp [room, eq_comm]
  · rename_i full
    simp [full]

theorem exists_ret_of_leave {frame : Frame} {world after : World} {instr : Instr}
    {result : Option Value} (acted : frame.act world instr = (.ok (.leave result), after)) :
    ∃ kind?, instr = .ret kind? := by
  have proceeds : ∀ (outcome : Except Fault Frame) (last : World),
      (outcome.map Action.proceed, last) ≠ (.ok (.leave result), after) := by
    intro outcome last same
    cases outcome <;> cases same
  have allocates : ∀ object, frame.pushNew world object ≠ (.ok (.leave result), after) := by
    intro object
    unfold pushNew
    split
    · simp
    · exact proceeds _ _
  cases instr with
  | ret kind? => exact ⟨kind?, rfl⟩
  | nop | label => cases acted
  | const constant =>
      cases constant with
      | string text => exact absurd acted (allocates _)
      | _ => exact absurd acted (proceeds _ _)
  | new className => exact absurd acted (allocates _)
  | field op field =>
      have written : ∀ outcome, proceedWith world outcome ≠ (.ok (.leave result), after) := by
        rintro (fault | ⟨next, last⟩) same <;> cases same
      simp only [act, access] at acted
      split at acted
      · cases acted
      · cases op with
        | getStatic | getField => exact absurd acted (proceeds _ _)
        | putStatic | putField => exact absurd acted (written _)
  | call mode method =>
      obtain ⟨⟨args, below⟩, _, asked⟩ := bind_eq_ok_iff.mp (Prod.mk.inj acted).1
      dsimp only at asked
      split at asked <;> cases asked
  | guardedCall call =>
      simp only [act] at acted
      cases popped : frame.popArgs call.target false <;> simp [popped, Except.map] at acted
  | throw =>
      obtain ⟨_, _, thrown⟩ := bind_eq_ok_iff.mp (Prod.mk.inj acted).1
      cases thrown
  | _ => exact absurd acted (proceeds _ _)

end Frame

namespace Interpreter

variable {interpreter : Interpreter} {behaviour : Behaviour} {frame : Frame} {world : World}
  {next : Frame × World}

/-- An action that proceeds with a frame makes the step go on with it. -/
theorem finish_proceed_iff {result : Except Fault Frame} {after : World} :
    interpreter.finish behaviour (result.map .proceed, after) = (.ok (.running next.1), next.2) ↔
      result = .ok next.1 ∧ after = next.2 := by
  cases result <;> simp [finish, Except.map]

/-- An instruction that pushes a value goes on exactly if the declared stack has room. -/
theorem advances_push_iff {instr : Instr} {value : Value} {after : World}
    (fetched : frame.code[frame.pc]? = some instr)
    (pushes : Frame.act { frame with pc := frame.pc + 1 } world.counted instr =
      ((Frame.push { frame with pc := frame.pc + 1 } value).map .proceed, after)) :
    interpreter.Advances behaviour (frame, world) next ↔
      world.executed < interpreter.limits.budget ∧
        frame.stack.length + value.slots ≤ frame.body.maxStack ∧
        next = (frame.behind (value.cells ++ frame.stack), after) := by
  rw [advances_iff fetched, pushes, finish_proceed_iff, Frame.push_eq_ok_iff, Prod.ext_iff,
    and_assoc, eq_comm (a := after)]
  rfl

/-- A constant that is no string. -/
theorem advances_const_iff {constant : Const} {value : Value}
    (fetched : frame.code[frame.pc]? = some (.const constant))
    (known : Value.ofConst? constant = some value) :
    interpreter.Advances behaviour (frame, world) next ↔
      world.executed < interpreter.limits.budget ∧
        frame.stack.length + value.slots ≤ frame.body.maxStack ∧
        next = (frame.behind (value.cells ++ frame.stack), world.counted) := by
  apply advances_push_iff fetched
  cases constant with
  | string text => cases known
  | _ => cases known; rfl

/-- An instruction that goes on with a new object on the stack. -/
theorem Advances.of_pushNew {instr : Instr} {object : HeapObject}
    (step : interpreter.Advances behaviour (frame, world) next)
    (fetched : frame.code[frame.pc]? = some instr)
    (pushes : Frame.act { frame with pc := frame.pc + 1 } world.counted instr =
      Frame.pushNew { frame with pc := frame.pc + 1 } world.counted object) :
    frame.stack.length + 1 ≤ frame.body.maxStack ∧
      next = (frame.behind (.value world.nextRef :: frame.stack),
        world.counted.allocated object) := by
  obtain ⟨_, stepEq⟩ := (advances_iff fetched).mp step
  rw [pushes, Frame.pushNew] at stepEq
  split at stepEq
  · cases stepEq
  · rename_i value after allocEq
    obtain ⟨_, rfl, rfl⟩ := World.alloc_eq_ok_iff.mp allocEq
    obtain ⟨pushEq, afterEq⟩ := finish_proceed_iff.mp stepEq
    obtain ⟨fits, nextEq⟩ := Frame.push_eq_ok_iff.mp pushEq
    exact ⟨fits, Prod.ext nextEq afterEq.symm⟩

/-- A load goes on exactly if the local holds a value of the kind and the stack has room for it. -/
theorem advances_load_iff {kind : Kind} {slot : Nat}
    (fetched : frame.code[frame.pc]? = some (.load kind slot)) :
    interpreter.Advances behaviour (frame, world) next ↔
      ∃ value, frame.loadLocal kind slot = .ok value ∧
        world.executed < interpreter.limits.budget ∧
        frame.stack.length + value.slots ≤ frame.body.maxStack ∧
        next = (frame.behind (value.cells ++ frame.stack), world.counted) := by
  have loads : Frame.act { frame with pc := frame.pc + 1 } world.counted (.load kind slot) =
      ((frame.loadLocal kind slot >>= Frame.push { frame with pc := frame.pc + 1 }).map .proceed,
        world.counted) := rfl
  cases held : frame.loadLocal kind slot with
  | error fault =>
      rw [advances_iff fetched, loads, held]
      constructor
      · rintro ⟨_, stepEq⟩
        cases stepEq
      · rintro ⟨_, heldEq, _⟩
        cases heldEq
  | ok value =>
      rw [held] at loads
      rw [advances_push_iff fetched loads]
      constructor
      · intro goes
        exact ⟨value, rfl, goes⟩
      · rintro ⟨_, heldEq, goes⟩
        cases heldEq
        exact goes

/-- A store that goes on takes a value off the stack and writes it. -/
theorem Advances.of_store {kind : Kind} {slot : Nat}
    (step : interpreter.Advances behaviour (frame, world) next)
    (fetched : frame.code[frame.pc]? = some (.store kind slot)) :
    ∃ value rest, value.kind = kind ∧ frame.stack = value.cells ++ rest ∧
      slot + value.slots ≤ frame.body.maxLocals ∧
      next = ((frame.behind rest).withLocals (writeSlots frame.locals slot value),
        world.counted) := by
  obtain ⟨_, stepEq⟩ := (advances_iff fetched).mp step
  obtain ⟨stored, afterEq⟩ := finish_proceed_iff.mp stepEq
  obtain ⟨⟨value, below⟩, poppedEq, storedEq⟩ := bind_eq_ok_iff.mp stored
  obtain ⟨kindEq, rest, stackEq, rfl⟩ := Frame.popKind_eq_ok_iff.mp poppedEq
  dsimp only at storedEq
  rw [Frame.storeLocal_eq] at storedEq
  split at storedEq
  · rename_i inside
    have frameEq : (frame.behind rest).withLocals (writeSlots frame.locals slot value) =
        next.1 := Except.ok.inj storedEq
    exact ⟨value, rest, kindEq, stackEq, inside, Prod.ext frameEq.symm afterEq.symm⟩
  · cases storedEq

/-- A value of one slot that is pushed again. -/
theorem Advances.of_dup {value : Value} {rest : List Slot}
    (step : interpreter.Advances behaviour (frame, world) next)
    (fetched : frame.code[frame.pc]? = some .dup) (stackEq : frame.stack = .value value :: rest) :
    next = (frame.behind (.value value :: frame.stack), world.counted) := by
  obtain ⟨_, stepEq⟩ := (advances_iff fetched).mp step
  obtain ⟨pushed, afterEq⟩ := finish_proceed_iff.mp stepEq
  simp only [Frame.duplicate, stackEq, List.head?_cons] at pushed
  split at pushed
  · rename_i narrow
    obtain ⟨_, nextEq⟩ := Frame.push_eq_ok_iff.mp pushed
    rw [Value.cells_of_narrow narrow] at nextEq
    rw [stackEq]
    exact Prod.ext nextEq afterEq.symm
  · cases pushed

/-- A label that is passed. -/
theorem advances_label_iff {label : Label}
    (fetched : frame.code[frame.pc]? = some (.label label)) :
    interpreter.Advances behaviour (frame, world) next ↔
      world.executed < interpreter.limits.budget ∧
        next = (frame.behind frame.stack, world.counted) := by
  rw [advances_iff fetched]
  apply and_congr_right
  intro _
  rcases next with ⟨nextFrame, nextWorld⟩
  simp only [Frame.act, finish, Prod.mk.injEq, Except.ok.injEq, Progress.running.injEq]
  exact and_congr eq_comm eq_comm

/-- A frame that waited goes on exactly if the call gave a result and there is room for it. -/
theorem resume_iff {waiting : Frame} {answer : CallResult} :
    resume waiting answer = (.ok (.running next.1), next.2) ↔
      ∃ result, answer = (.ok result, next.2) ∧ waiting.pushResult result = .ok next.1 := by
  rcases answer with ⟨fault | result, after⟩
  · simp [resume]
  · cases pushed : waiting.pushResult result <;> simp [resume, pushed, Except.map, and_comm]

/-- The cells of what a call returns, none if it returns nothing. -/
def resultCells (result : Option Value) : List Slot := (result.map Value.cells).getD []

theorem length_resultCells_le (result : Option Value) : (resultCells result).length ≤ 2 := by
  cases result with
  | none => exact Nat.zero_le _
  | some value => exact value.length_cells.trans_le value.kind.slots_le_two

/-- A result is pushed if there is room for it. -/
theorem pushResult_eq_ok {waiting : Frame} {result : Option Value}
    (room : waiting.stack.length + (resultCells result).length ≤ waiting.body.maxStack) :
    waiting.pushResult result =
      .ok (waiting.withStack (resultCells result ++ waiting.stack)) := by
  cases result with
  | none => rfl
  | some value =>
      have fits : waiting.stack.length + value.slots ≤ waiting.body.maxStack := by
        simpa [resultCells] using room
      exact Frame.push_eq_ok_iff.mpr ⟨fits, rfl⟩

/-- A call goes on if its arguments are there and what it calls answers with a result. -/
theorem advances_of_call {mode : CallMode} {method : MethodRef} {args : List Value}
    {below : Frame} {result : Option Value}
    (fetched : frame.code[frame.pc]? = some (.call mode method))
    (budget : world.executed < interpreter.limits.budget)
    (popped : Frame.popArgs { frame with pc := frame.pc + 1 } method mode.hasReceiver =
      .ok (args, below))
    (receiver : (mode.hasReceiver && args.head?.any Value.isNull) = false)
    (answered : behaviour method args world.counted = (.ok result, next.2))
    (pushed : below.pushResult result = .ok next.1) :
    interpreter.Advances behaviour (frame, world) next := by
  rw [advances_iff fetched]
  apply And.intro budget
  change interpreter.finish behaviour
    (Frame.prepareCall { frame with pc := frame.pc + 1 } mode method, world.counted) = _
  simp [Frame.prepareCall, popped, receiver, bind, Except.bind, pure, Except.pure, finish,
    answered, resume, pushed, Except.map]

/-- A call that went on found its arguments and got an answer. -/
theorem Advances.of_call {mode : CallMode} {method : MethodRef}
    (step : interpreter.Advances behaviour (frame, world) next)
    (fetched : frame.code[frame.pc]? = some (.call mode method)) :
    ∃ args below result,
      Frame.popArgs { frame with pc := frame.pc + 1 } method mode.hasReceiver =
        .ok (args, below) ∧
      interpreter.answer? behaviour frame world = some (behaviour method args world.counted) ∧
      behaviour method args world.counted = (.ok result, next.2) ∧
      below.pushResult result = .ok next.1 := by
  obtain ⟨_, stepEq⟩ := (advances_iff fetched).mp step
  have answer : interpreter.answer? behaviour frame world = interpreter.reply? behaviour
      (Frame.act { frame with pc := frame.pc + 1 } world.counted (.call mode method)) := by
    rw [answer?, fetched]
    rfl
  simp only [Frame.act, Frame.prepareCall] at stepEq answer
  cases poppedEq : Frame.popArgs { frame with pc := frame.pc + 1 } method mode.hasReceiver with
  | error fault =>
      rw [poppedEq] at stepEq
      cases stepEq
  | ok popped =>
      rcases popped with ⟨args, below⟩
      simp only [poppedEq, bind, Except.bind] at stepEq answer
      split at stepEq
      · cases stepEq
      · rename_i receiver
        rw [if_neg receiver] at answer
        change resume below (behaviour method args world.counted) = _ at stepEq
        obtain ⟨result, answered, pushed⟩ := resume_iff.mp stepEq
        exact ⟨args, below, result, rfl, answer, answered, pushed⟩

/-- A branch that is taken. -/
theorem advances_of_branch {cond : Cond} {target : Label} {rest : List Slot} {position : Nat}
    (fetched : frame.code[frame.pc]? = some (.jump cond target))
    (budget : world.executed < interpreter.limits.budget)
    (tested : Frame.test { frame with pc := frame.pc + 1 } cond = .ok (true, frame.behind rest))
    (known : frame.labels.lookup target = some position) :
    interpreter.Advances behaviour (frame, world)
      ({ frame with pc := position, stack := rest }, world.counted) := by
  have gone : (frame.behind rest).goto target =
      .ok { frame with pc := position, stack := rest } := by
    simp only [Frame.goto, Frame.behind, known]
  rw [advances_iff fetched]
  apply And.intro budget
  simp [Frame.act, tested, bind, Except.bind, gone, finish, Except.map]

/-- A branch that is not taken. -/
theorem advances_of_pass {cond : Cond} {target : Label} {rest : List Slot}
    (fetched : frame.code[frame.pc]? = some (.jump cond target))
    (budget : world.executed < interpreter.limits.budget)
    (tested : Frame.test { frame with pc := frame.pc + 1 } cond = .ok (false, frame.behind rest)) :
    interpreter.Advances behaviour (frame, world) (frame.behind rest, world.counted) := by
  rw [advances_iff fetched]
  apply And.intro budget
  simp [Frame.act, tested, bind, Except.bind, pure, Except.pure, finish, Except.map]

/-- Within the budget a step carries out its instruction. -/
theorem step_eq_finish {instr : Instr} (fetched : frame.code[frame.pc]? = some instr)
    (budget : world.executed < interpreter.limits.budget) :
    interpreter.step behaviour frame world =
      interpreter.finish behaviour
        (Frame.act { frame with pc := frame.pc + 1 } world.counted instr) := by
  rw [step_eq fetched, if_neg (by omega)]

/-- A call fails with the fault that it is answered with. -/
theorem step_of_failed_call {mode : CallMode} {method : MethodRef} {args : List Value}
    {below : Frame} {fault : Fault} {after : World}
    (fetched : frame.code[frame.pc]? = some (.call mode method))
    (budget : world.executed < interpreter.limits.budget)
    (popped : Frame.popArgs { frame with pc := frame.pc + 1 } method mode.hasReceiver =
      .ok (args, below))
    (receiver : (mode.hasReceiver && args.head?.any Value.isNull) = false)
    (answered : behaviour method args world.counted = (.error fault, after)) :
    interpreter.step behaviour frame world = (.error fault, after) := by
  rw [step_eq_finish fetched budget]
  simp [Frame.act, Frame.prepareCall, popped, receiver, bind, Except.bind, pure, Except.pure,
    finish, answered, resume]

/-- A cast leaves the reference on the stack, or fails with what the check says. -/
theorem finish_cast {value : Value} {rest : List Slot} {className : String}
    (kindEq : value.kind = .reference) (stackEq : frame.stack = .value value :: rest)
    (room : frame.stack.length ≤ frame.body.maxStack) :
    interpreter.finish behaviour
        (Frame.act { frame with pc := frame.pc + 1 } world (.checkCast className)) =
      ((world.heap.checkCast value className).map fun _ => .running (frame.behind frame.stack),
        world) := by
  have narrow : value.slots = 1 := Value.slots_of_reference kindEq
  have popped : Frame.popKind { frame with pc := frame.pc + 1 } .reference =
      .ok (value, frame.behind rest) :=
    Frame.popKind_eq_ok_iff.mpr
      ⟨kindEq, rest, by rw [stackEq, Value.cells_of_narrow narrow]; rfl, rfl⟩
  have pushed : (frame.behind rest).push value = .ok (frame.behind frame.stack) := by
    rw [stackEq] at room ⊢
    apply Frame.push_eq_ok_iff.mpr
    rw [narrow, Value.cells_of_narrow narrow]
    exact ⟨room, rfl⟩
  cases checked : world.heap.checkCast value className <;>
    simp [Frame.act, Frame.cast, popped, checked, pushed, bind, Except.bind, Except.map, finish]

/-- The method returns the value on top of the stack. -/
theorem step_of_ret {value : Value} {kind : Kind} {rest : List Slot}
    (fetched : frame.code[frame.pc]? = some (.ret (some kind)))
    (budget : world.executed < interpreter.limits.budget)
    (kindEq : value.kind = kind) (stackEq : frame.stack = value.cells ++ rest) :
    interpreter.step behaviour frame world = (.ok (.left (some value)), world.counted) := by
  have popped : Frame.popKind { frame with pc := frame.pc + 1 } kind =
      .ok (value, frame.behind rest) :=
    Frame.popKind_eq_ok_iff.mpr ⟨kindEq, rest, stackEq, rfl⟩
  rw [step_eq_finish fetched budget]
  simp [Frame.act, popped, Except.map, finish]

theorem acted_of_left {acted : Except Fault Action × World} {result : Option Value}
    {after : World} (left : interpreter.finish behaviour acted = (.ok (.left result), after)) :
    acted = (.ok (.leave result), after) := by
  have running : ∀ waiting (answer : CallResult),
      resume waiting answer ≠ (.ok (.left result), after) := by
    rintro waiting ⟨fault | value, last⟩ same
    · cases same
    · cases pushed : waiting.pushResult value <;> simp [resume, pushed, Except.map] at same
  rcases acted with ⟨fault | action, last⟩
  · cases left
  · cases action with
    | proceed next => cases left
    | leave value =>
        cases left
        rfl
    | call waiting method args => exact absurd left (running _ _)
    | guarded waiting call args => exact absurd left (running _ _)

/-- Only a return leaves the method. -/
theorem exists_ret_of_left {result : Option Value} {after : World}
    (left : interpreter.step behaviour frame world = (.ok (.left result), after)) :
    ∃ kind?, frame.code[frame.pc]? = some (.ret kind?) := by
  cases fetched : frame.code[frame.pc]? with
  | none => simp [step, fetched] at left
  | some instr =>
      rw [step_eq fetched] at left
      split at left
      · cases left
      · obtain ⟨kind?, rfl⟩ := Frame.exists_ret_of_leave (acted_of_left left)
        exact ⟨kind?, rfl⟩

/-- Loads that went on left the cells of what they read, one value above the other. -/
theorem AdvancesBy.of_loads {loads : List (Nat × Kind)} {last : Frame × World}
    (steps : interpreter.AdvancesBy behaviour loads.length (frame, world) last)
    (stretch : Stretch frame.code frame.pc (loads.map fun (slot, kind) => .load kind slot)) :
    ∃ cells : List Slot, cells.length = (loads.map fun load => load.2.slots).sum ∧
      last = ({ frame with pc := frame.pc + loads.length, stack := cells ++ frame.stack },
        world.spent loads.length) := by
  induction loads generalizing frame world with
  | nil =>
      cases steps
      exact ⟨[], rfl, rfl⟩
  | cons load loads ih =>
      obtain ⟨next, step, later⟩ := steps
      obtain ⟨value, held, _, _, rfl⟩ := (advances_load_iff stretch.head).mp step
      obtain ⟨cells, lengthEq, lastEq⟩ := ih later stretch.tail
      have kindEq : value.kind = load.2 := (Frame.loadLocal_eq_ok_iff.mp held).2.1
      refine ⟨cells ++ value.cells, ?_, ?_⟩
      · simp [lengthEq, Value.slots, kindEq, Nat.add_comm]
      · rw [lastEq]
        simp [Frame.behind, Nat.add_assoc, Nat.add_comm 1]

end Interpreter

end Weaver.Machine
