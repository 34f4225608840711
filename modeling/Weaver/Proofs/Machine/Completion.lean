import Weaver.Proofs.Machine.Arguments
import Weaver.Proofs.Machine.Counting
import Weaver.Proofs.Machine.Straight

/-!
# Executions to their end

The patience of a run lasts as long as the budget, so that it never runs out by itself: what a frame
completes with is what it completes with after its next step.  Stretches of code that do not call
anything only count their instructions, and calls go on with what they are answered.
-/

namespace Weaver.Machine

/-- A result, or a fault, and the world after it. -/
abbrev Outcome (α : Type) := Except Fault α × World

/-- Go on with a result, and not at all with a fault. -/
def Outcome.bind {α β : Type} (outcome : Outcome α) (next : α → World → Outcome β) : Outcome β :=
  match outcome with
  | (.error fault, world) => (.error fault, world)
  | (.ok value, world) => next value world

/-- Count some instructions, up to the first that goes beyond the budget. -/
def World.spend (limits : Limits) (world : World) : Nat → Outcome Unit
  | 0 => (.ok (), world)
  | count + 1 =>
      Outcome.bind (Interpreter.begin limits world) fun _ world => world.spend limits count

@[simp]
theorem Outcome.bind_ok {α β : Type} (value : α) (world : World) (next : α → World → Outcome β) :
    Outcome.bind (.ok value, world) next = next value world := rfl

@[simp]
theorem Outcome.bind_error {α β : Type} (fault : Fault) (world : World)
    (next : α → World → Outcome β) :
    Outcome.bind (.error fault, world) next = (.error fault, world) := rfl

theorem Outcome.bind_assoc {α β γ : Type} (outcome : Outcome α) (next : α → World → Outcome β)
    (last : β → World → Outcome γ) :
    (outcome.bind next).bind last =
      outcome.bind fun value world => (next value world).bind last := by
  rcases outcome with ⟨fault | value, world⟩ <;> rfl

theorem World.spend_add (limits : Limits) (world : World) (first second : Nat) :
    world.spend limits (first + second) =
      Outcome.bind (world.spend limits first) fun _ world => world.spend limits second := by
  induction first generalizing world with
  | zero => simp [spend]
  | succ first ih =>
      rw [Nat.succ_add]
      simp only [spend, ih, Outcome.bind_assoc]

/-- Instructions are counted one after the other. -/
theorem World.spend_bind {α : Type} (limits : Limits) (world : World) (first second : Nat)
    (next : Unit → World → Outcome α) :
    (world.spend limits (first + second)).bind next =
      (world.spend limits first).bind fun _ world => (world.spend limits second).bind next := by
  rw [World.spend_add, Outcome.bind_assoc]

namespace Interpreter

variable {interpreter : Interpreter} {behaviour : Behaviour} {frame : Frame} {world : World}

/-- More steps than the budget allows make no difference. -/
theorem run_eq_run (counts : Counts behaviour) {first second : Nat} (frame : Frame) (world : World)
    (firstEnough : interpreter.patience world ≤ first)
    (secondEnough : interpreter.patience world ≤ second) :
    interpreter.run behaviour first frame world = interpreter.run behaviour second frame world := by
  induction first generalizing second frame world with
  | zero =>
      unfold patience at firstEnough
      omega
  | succ first ih =>
      cases second with
      | zero =>
          unfold patience at secondEnough
          omega
      | succ second =>
          unfold run
          split
          · rfl
          · rfl
          · rename_i next after stepEq
            have advances : interpreter.Advances behaviour (frame, world) (next, after) := stepEq
            obtain ⟨budget, later⟩ := executed_of_advances counts advances
            have shorter : interpreter.patience after < interpreter.patience world := by
              unfold patience
              dsimp only at budget later
              omega
            exact ih next after (by omega) (by omega)

/-- What a frame completes with. -/
def complete (interpreter : Interpreter) (behaviour : Behaviour) (frame : Frame) (world : World) :
    CallResult :=
  interpreter.run behaviour (interpreter.patience world) frame world

/-- A frame completes with what it completes with after its next step. -/
theorem complete_of_advances (counts : Counts behaviour) {now next : Frame × World}
    (advances : interpreter.Advances behaviour now next) :
    interpreter.complete behaviour now.1 now.2 = interpreter.complete behaviour next.1 next.2 := by
  have stepEq : interpreter.step behaviour now.1 now.2 = (.ok (.running next.1), next.2) := advances
  obtain ⟨budget, later⟩ := executed_of_advances counts advances
  have unfolded : interpreter.complete behaviour now.1 now.2 =
      interpreter.run behaviour (interpreter.limits.budget - now.2.executed) next.1 next.2 := by
    rw [complete, patience, run, stepEq]
  rw [unfolded]
  apply run_eq_run counts
  · unfold patience
    omega
  · exact Nat.le_refl _

/-- A frame completes with what it completes with from any state to which it comes. -/
theorem complete_of_reaches (counts : Counts behaviour) {now last : Frame × World}
    (path : Relation.ReflTransGen (interpreter.Advances behaviour) now last) :
    interpreter.complete behaviour now.1 now.2 = interpreter.complete behaviour last.1 last.2 := by
  induction path with
  | refl => rfl
  | tail _ step ih => exact ih.trans (complete_of_advances counts step)

theorem complete_of_error {fault : Fault} {after : World}
    (failed : interpreter.step behaviour frame world = (.error fault, after)) :
    interpreter.complete behaviour frame world = (.error fault, after) := by
  rw [complete, patience, run, failed]

theorem complete_of_left {result : Option Value} {after : World}
    (left : interpreter.step behaviour frame world = (.ok (.left result), after)) :
    interpreter.complete behaviour frame world = (.ok result, after) := by
  rw [complete, patience, run, left]

theorem spend_one (limits : Limits) (world : World) :
    world.spend limits 1 =
      if limits.budget < world.executed + 1 then
        (.error (.instructionLimit limits.budget), world.counted)
      else (.ok (), world.counted) := by
  simp only [World.spend, begin, World.counted]
  split <;> rfl

/-- A frame counts its next instruction, and goes on with it unless the budget is spent. -/
theorem complete_of_fetched {instr : Instr} {next : World → CallResult}
    (fetched : frame.code[frame.pc]? = some instr)
    (goesOn : interpreter.step behaviour frame world =
        interpreter.finish behaviour
          (Frame.act { frame with pc := frame.pc + 1 } world.counted instr) →
      interpreter.complete behaviour frame world = next world.counted) :
    interpreter.complete behaviour frame world =
      (world.spend interpreter.limits 1).bind fun _ world => next world := by
  have stepEq : interpreter.step behaviour frame world = _ := step_eq fetched
  rw [spend_one]
  split
  · rename_i exhausted
    rw [if_pos exhausted] at stepEq
    exact complete_of_error stepEq
  · rename_i left
    rw [if_neg left] at stepEq
    exact goesOn stepEq

/-- An instruction that proceeds whatever the world is only counts. -/
theorem complete_of_proceed (counts : Counts behaviour) {instr : Instr} {next : Frame}
    (fetched : frame.code[frame.pc]? = some instr)
    (proceeds : ∀ world, Frame.act { frame with pc := frame.pc + 1 } world instr =
      (.ok (.proceed next), world)) :
    interpreter.complete behaviour frame world =
      (world.spend interpreter.limits 1).bind fun _ world =>
        interpreter.complete behaviour next world := by
  apply complete_of_fetched fetched
  intro stepEq
  rw [proceeds] at stepEq
  have advances : interpreter.Advances behaviour (frame, world) (next, world.counted) := stepEq
  exact complete_of_advances counts advances

/-- An instruction that asks for a call goes on with what is answered. -/
theorem complete_of_ask (counts : Counts behaviour) {instr : Instr} {waiting : Frame}
    {answer : World → CallResult} (fetched : frame.code[frame.pc]? = some instr)
    (asks : ∀ world, interpreter.finish behaviour
      (Frame.act { frame with pc := frame.pc + 1 } world instr) = resume waiting (answer world)) :
    interpreter.complete behaviour frame world =
      (world.spend interpreter.limits 1).bind fun _ world =>
        Outcome.bind (answer world) fun result world =>
          Outcome.bind (waiting.pushResult result, world) (interpreter.complete behaviour) := by
  apply complete_of_fetched fetched
  intro stepEq
  rw [asks] at stepEq
  rcases answered : answer world.counted with ⟨fault | result, after⟩
  · rw [answered] at stepEq
    exact complete_of_error stepEq
  · rw [answered] at stepEq
    cases pushed : waiting.pushResult result with
    | error fault =>
        simp only [resume, pushed, Except.map] at stepEq
        simpa [pushed] using complete_of_error stepEq
    | ok next =>
        simp only [resume, pushed, Except.map] at stepEq
        have advances : interpreter.Advances behaviour (frame, world) (next, after) := stepEq
        simpa [pushed] using complete_of_advances counts advances

/-- A return without a value completes with none. -/
theorem complete_of_ret (fetched : frame.code[frame.pc]? = some (.ret none)) :
    interpreter.complete behaviour frame world =
      (world.spend interpreter.limits 1).bind fun _ world => (.ok none, world) := by
  apply complete_of_fetched fetched
  intro stepEq
  exact complete_of_left stepEq

/-- A load puts what the local holds on the stack. -/
theorem complete_of_load (counts : Counts behaviour) {kind : Kind} {slot : Nat} {value : Value}
    (fetched : frame.code[frame.pc]? = some (.load kind slot))
    (loaded : frame.loadLocal kind slot = .ok value)
    (room : frame.stack.length + value.slots ≤ frame.body.maxStack) :
    interpreter.complete behaviour frame world =
      (world.spend interpreter.limits 1).bind fun _ world =>
        interpreter.complete behaviour (frame.behind (value.cells ++ frame.stack)) world := by
  have pushed : Frame.push { frame with pc := frame.pc + 1 } value =
      .ok (frame.behind (value.cells ++ frame.stack)) := Frame.push_eq_ok_iff.mpr ⟨room, rfl⟩
  apply complete_of_proceed counts fetched
  intro world
  have acts : Frame.act { frame with pc := frame.pc + 1 } world (.load kind slot) =
      ((frame.loadLocal kind slot >>= Frame.push { frame with pc := frame.pc + 1 }).map .proceed,
        world) := rfl
  rw [acts, loaded]
  change ((Frame.push { frame with pc := frame.pc + 1 } value).map _, world) = _
  rw [pushed]
  rfl

/-- A branch on an int goes to its target unless the int is zero. -/
theorem complete_of_ifNonZero (counts : Counts behaviour) {number : Int32} {target : Label}
    {rest : List Slot} {position : Nat}
    (fetched : frame.code[frame.pc]? = some (.jump .ifNonZero target))
    (stackEq : frame.stack = .value (.int number) :: rest)
    (known : frame.labels.lookup target = some position) :
    interpreter.complete behaviour frame world =
      (world.spend interpreter.limits 1).bind fun _ world =>
        interpreter.complete behaviour
          { frame with
            pc := if number = 0 then frame.pc + 1 else position
            stack := rest } world := by
  apply complete_of_proceed counts fetched
  intro world
  have tested : Frame.test { frame with pc := frame.pc + 1 } .ifNonZero =
      .ok (number != 0, frame.behind rest) := Frame.test_ifNonZero stackEq
  by_cases zero : number = 0
  · simp [Frame.act, tested, bind, Except.bind, pure, Except.pure, Except.map, zero, Frame.behind]
  · simp [Frame.act, tested, bind, Except.bind, Except.map, zero, Frame.behind, Frame.goto, known]

/-- Loads of values that the locals hold put them on the stack, one above the other. -/
theorem complete_of_loads (counts : Counts behaviour) {types : List Ty} {values : List Value}
    {first : Nat}
    (kindsEq : types.map Ty.kind? = values.map fun value => some value.kind)
    (holds : Holds frame.locals first values)
    (inside : first + (values.map Value.slots).sum ≤ frame.body.maxLocals)
    (narrow : frame.body.maxLocals ≤ slotLimit)
    (room : frame.stack.length + (values.map Value.slots).sum ≤ frame.body.maxStack)
    (stretch : Stretch frame.code frame.pc
      ((Signature.layout first types).map fun (slot, kind) => .load kind slot)) :
    interpreter.complete behaviour frame world =
      (world.spend interpreter.limits values.length).bind fun _ world =>
        interpreter.complete behaviour
          { frame with
            pc := frame.pc + values.length
            stack := values.reverse.flatMap Value.cells ++ frame.stack } world := by
  induction types generalizing values first frame world with
  | nil =>
      cases values with
      | nil => rfl
      | cons => cases kindsEq
  | cons type types ih =>
      cases values with
      | nil => cases kindsEq
      | cons value values =>
          obtain ⟨kindEq, kindsEq⟩ := List.cons.inj kindsEq
          obtain ⟨held, holds⟩ := holds
          rw [List.map_cons, List.sum_cons] at inside room
          rw [layout_cons kindEq (by omega), List.map_cons] at stretch
          have loaded : frame.loadLocal value.kind first = .ok value :=
            Frame.loadLocal_eq_ok_iff.mpr ⟨by unfold Value.slots at inside; omega, rfl, held⟩
          rw [complete_of_load counts stretch.head loaded (by omega), List.length_cons,
            Nat.add_comm, World.spend_bind]
          congr 1
          funext _ world
          have holdsLater : Holds (frame.behind (value.cells ++ frame.stack)).locals
              (first + value.slots) values := holds
          have roomLater : (frame.behind (value.cells ++ frame.stack)).stack.length +
              (values.map Value.slots).sum ≤ frame.body.maxStack := by
            simp only [Frame.behind, List.length_append, Value.length_cells]
            omega
          have stretchLater : Stretch (frame.behind (value.cells ++ frame.stack)).code
              (frame.behind (value.cells ++ frame.stack)).pc _ := stretch.tail
          rw [ih kindsEq holdsLater (by rw [Nat.add_assoc]; exact inside) narrow roomLater
            stretchLater]
          simp [Frame.behind, Nat.add_assoc, Nat.add_comm 1]

/-- A guarded call goes on with what is answered to it. -/
theorem complete_of_guardedCall (counts : Counts behaviour) {call : GuardedCall}
    {args : List Value} {rest : List Slot}
    (fetched : frame.code[frame.pc]? = some (.guardedCall call))
    (kindsEq : call.target.signature.params.map Ty.kind? = args.map fun value => some value.kind)
    (stackEq : frame.stack = args.reverse.flatMap Value.cells ++ rest) :
    interpreter.complete behaviour frame world =
      (world.spend interpreter.limits 1).bind fun _ world =>
        Outcome.bind (callGuarded interpreter.program behaviour call args world)
          fun result world =>
            Outcome.bind ((frame.behind rest).pushResult result, world)
              (interpreter.complete behaviour) := by
  apply complete_of_ask counts fetched
  intro world
  have popped : Frame.popArgs { frame with pc := frame.pc + 1 } call.target false =
      .ok (args, frame.behind rest) := Frame.popArgs_eq_ok kindsEq stackEq
  simp [Frame.act, popped, Except.map, finish]

/-- A call goes on with what is answered to it. -/
theorem complete_of_call (counts : Counts behaviour) {mode : CallMode} {method : MethodRef}
    {args : List Value} {below : Frame}
    (fetched : frame.code[frame.pc]? = some (.call mode method))
    (popped : Frame.popArgs { frame with pc := frame.pc + 1 } method mode.hasReceiver =
      .ok (args, below))
    (receiver : (mode.hasReceiver && args.head?.any Value.isNull) = false) :
    interpreter.complete behaviour frame world =
      (world.spend interpreter.limits 1).bind fun _ world =>
        Outcome.bind (behaviour method args world) fun result world =>
          Outcome.bind (below.pushResult result, world) (interpreter.complete behaviour) := by
  apply complete_of_ask counts fetched
  intro world
  simp [Frame.act, Frame.prepareCall, popped, receiver, bind, Except.bind, pure, Except.pure,
    finish]

end Interpreter

end Weaver.Machine
