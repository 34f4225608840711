import Weaver.Proofs.Machine.Arguments
import Weaver.Proofs.Machine.Straight

/-!
# The calls of an execution

What a method does to others is the sequence of its calls, each with the arguments that it passes.
`Makes` is the relation of an execution that goes on and makes certain calls on its way, in their
order; most instructions are quiet and make none.
-/

namespace Weaver.Machine

/-- The method that an action asks to be called, with the arguments. -/
def Action.call? : Action → Option (MethodRef × List Value)
  | .call _ method args => some (method, args)
  | .guarded _ asked args => some (asked.target, args)
  | .proceed _ | .leave _ => none

/-- The call that the next instruction of a frame makes, if it makes one. -/
def Frame.call? (frame : Frame) (world : World) : Option (MethodRef × List Value) :=
  frame.code[frame.pc]?.bind fun instr =>
    (Frame.act { frame with pc := frame.pc + 1 } world.counted instr).1.toOption.bind Action.call?

theorem Frame.call?_of_proceeds {frame : Frame} {world after : World} {instr : Instr}
    {result : Except Fault Frame} (fetched : frame.code[frame.pc]? = some instr)
    (acts : Frame.act { frame with pc := frame.pc + 1 } world.counted instr =
      (result.map .proceed, after)) : frame.call? world = none := by
  rw [Frame.call?, fetched, Option.bind_some, acts]
  cases result <;> rfl

namespace Interpreter

/-- An execution that goes on from one state to another and makes the given calls on its way. -/
inductive Makes (interpreter : Interpreter) (behaviour : Behaviour) :
    List (MethodRef × List Value) → Frame × World → Frame × World → Prop
  | done {now} : Makes interpreter behaviour [] now now
  | quiet {calls now next last} (silent : now.1.call? now.2 = none)
      (step : interpreter.Advances behaviour now next)
      (later : Makes interpreter behaviour calls next last) :
      Makes interpreter behaviour calls now last
  | asks {call calls now next last} (asked : now.1.call? now.2 = some call)
      (step : interpreter.Advances behaviour now next)
      (later : Makes interpreter behaviour calls next last) :
      Makes interpreter behaviour (call :: calls) now last

variable {interpreter : Interpreter} {behaviour : Behaviour} {frame : Frame} {world : World}

theorem Makes.trans {first second : List (MethodRef × List Value)} {now middle last : Frame × World}
    (front : interpreter.Makes behaviour first now middle)
    (back : interpreter.Makes behaviour second middle last) :
    interpreter.Makes behaviour (first ++ second) now last := by
  induction front with
  | done => exact back
  | quiet silent step _ ih => exact .quiet silent step (ih back)
  | asks asked step _ ih => exact .asks asked step (ih back)

theorem Makes.reaches {calls : List (MethodRef × List Value)} {now last : Frame × World}
    (makes : interpreter.Makes behaviour calls now last) :
    Relation.ReflTransGen (interpreter.Advances behaviour) now last := by
  induction makes with
  | done => exact .refl
  | quiet _ step _ ih => exact .head step ih
  | asks _ step _ ih => exact .head step ih

/-- Loads of values that the locals hold put them on the stack, one above the other. -/
theorem makes_of_loads {types : List Ty} {values : List Value} {first : Nat}
    (kindsEq : types.map Ty.kind? = values.map fun value => some value.kind)
    (holds : Holds frame.locals first values)
    (inside : first + (values.map Value.slots).sum ≤ frame.body.maxLocals)
    (narrow : frame.body.maxLocals ≤ slotLimit)
    (room : frame.stack.length + (values.map Value.slots).sum ≤ frame.body.maxStack)
    (stretch : Stretch frame.code frame.pc
      ((Signature.layout first types).map fun (slot, kind) => .load kind slot))
    (budget : world.executed + values.length ≤ interpreter.limits.budget) :
    interpreter.Makes behaviour [] (frame, world)
      ({ frame with
          pc := frame.pc + values.length
          stack := values.reverse.flatMap Value.cells ++ frame.stack },
        world.spent values.length) := by
  induction types generalizing values first frame world with
  | nil =>
      cases values with
      | nil => exact .done
      | cons => cases kindsEq
  | cons type types ih =>
      cases values with
      | nil => cases kindsEq
      | cons value values =>
          obtain ⟨kindEq, kindsEq⟩ := List.cons.inj kindsEq
          obtain ⟨held, holds⟩ := holds
          rw [List.map_cons, List.sum_cons] at inside room
          rw [List.length_cons] at budget
          rw [layout_cons kindEq (by omega), List.map_cons] at stretch
          have loaded : frame.loadLocal value.kind first = .ok value :=
            Frame.loadLocal_eq_ok_iff.mpr ⟨by unfold Value.slots at inside; omega, rfl, held⟩
          have acts : Frame.act { frame with pc := frame.pc + 1 } world.counted
              (.load value.kind first) =
                ((frame.loadLocal value.kind first >>=
                  Frame.push { frame with pc := frame.pc + 1 }).map .proceed, world.counted) := rfl
          have goes : interpreter.Advances behaviour (frame, world)
              (frame.behind (value.cells ++ frame.stack), world.counted) :=
            (advances_load_iff stretch.head).mpr ⟨value, loaded, by omega, by omega, rfl⟩
          have later : interpreter.Makes behaviour []
              (frame.behind (value.cells ++ frame.stack), world.counted) _ :=
            ih kindsEq holds (by rw [Nat.add_assoc]; exact inside) narrow
              (by simp [Frame.behind]; omega) stretch.tail (by simp; omega)
          refine .quiet (Frame.call?_of_proceeds stretch.head acts) goes ?_
          simpa [Frame.behind, Nat.add_assoc, Nat.add_comm 1] using later

/-- Slots that are popped leave the stack below them. -/
theorem makes_of_pops {cells rest : List Slot}
    (stretch : Stretch frame.code frame.pc (List.replicate cells.length .pop))
    (stackEq : frame.stack = cells ++ rest)
    (budget : world.executed + cells.length ≤ interpreter.limits.budget) :
    interpreter.Makes behaviour [] (frame, world)
      ({ frame with pc := frame.pc + cells.length, stack := rest },
        world.spent cells.length) := by
  induction cells generalizing frame world with
  | nil =>
      have same : frame = { frame with stack := rest } := by
        rw [← show frame.stack = rest from stackEq]
      rw [same]
      exact .done
  | cons slot cells ih =>
      rw [List.length_cons, List.replicate_succ] at stretch
      rw [List.length_cons] at budget
      have popped : Frame.popSlot { frame with pc := frame.pc + 1 } =
          .ok (slot, frame.behind (cells ++ rest)) := by
        simp [Frame.popSlot, stackEq, Frame.behind]
      have acts : Frame.act { frame with pc := frame.pc + 1 } world.counted .pop =
          (((Frame.popSlot { frame with pc := frame.pc + 1 }).map Prod.snd).map .proceed,
            world.counted) := rfl
      have goes : interpreter.Advances behaviour (frame, world)
          (frame.behind (cells ++ rest), world.counted) := by
        rw [advances_iff stretch.head, acts, finish_proceed_iff, popped]
        exact ⟨by omega, rfl, rfl⟩
      have later : interpreter.Makes behaviour []
          (frame.behind (cells ++ rest), world.counted) _ :=
        ih stretch.tail rfl (by simp; omega)
      refine .quiet (Frame.call?_of_proceeds stretch.head acts) goes ?_
      simpa [Frame.behind, Nat.add_assoc, Nat.add_comm 1] using later

/-- A static call takes its arguments off the stack and leaves what it is answered with. -/
theorem makes_of_call {method : MethodRef} {args : List Value} {rest : List Slot}
    {result : Option Value} {answered : World}
    (fetched : frame.code[frame.pc]? = some (.call .static method))
    (kindsEq : method.signature.params.map Ty.kind? = args.map fun value => some value.kind)
    (stackEq : frame.stack = args.reverse.flatMap Value.cells ++ rest)
    (budget : world.executed < interpreter.limits.budget)
    (answer : behaviour method args world.counted = (.ok result, answered))
    (room : rest.length + (resultCells result).length ≤ frame.body.maxStack) :
    interpreter.Makes behaviour [(method, args)] (frame, world)
      (frame.behind (resultCells result ++ rest), answered) := by
  have popped : Frame.popArgs { frame with pc := frame.pc + 1 } method false =
      .ok (args, frame.behind rest) := Frame.popArgs_eq_ok kindsEq stackEq
  have pushed : (frame.behind rest).pushResult result =
      .ok (frame.behind (resultCells result ++ rest)) := pushResult_eq_ok room
  have asked : frame.call? world = some (method, args) := by
    rw [Frame.call?, fetched, Option.bind_some]
    simp [Frame.act, Frame.prepareCall, CallMode.hasReceiver, popped, bind, Except.bind, pure,
      Except.pure, Except.toOption, Action.call?]
  have goes : interpreter.Advances behaviour (frame, world)
      (frame.behind (resultCells result ++ rest), answered) :=
    advances_of_call fetched budget popped rfl answer pushed
  exact .asks asked goes .done

end Interpreter

end Weaver.Machine
