import Mathlib.Logic.Relation
import Weaver.Machine.Interpreter

/-!
# Executions step by step

A step counts its instruction, acts on the frame, and takes up the answer if the instruction asked
for a call.  `Advances` is the relation of a step that goes on, and a bounded run is a chain of such
steps that ends with a result, with a fault, or when its patience does.
-/

namespace Weaver.Machine

/-- The world with one more instruction counted. -/
def World.counted (world : World) : World := { world with executed := world.executed + 1 }

@[simp]
theorem World.counted_heap (world : World) : world.counted.heap = world.heap := rfl

@[simp]
theorem World.counted_executed (world : World) :
    world.counted.executed = world.executed + 1 := rfl

/-- The world with a number of instructions counted. -/
def World.spent (world : World) (count : Nat) : World :=
  { world with executed := world.executed + count }

@[simp]
theorem World.spent_zero (world : World) : world.spent 0 = world := rfl

@[simp]
theorem World.spent_counted (world : World) (count : Nat) :
    world.counted.spent count = world.spent (count + 1) := by
  simp only [spent, counted, Nat.add_assoc, Nat.add_comm 1]

@[simp]
theorem World.spent_spent (world : World) (first second : Nat) :
    (world.spent first).spent second = world.spent (first + second) := by
  simp [spent, Nat.add_assoc]

namespace Interpreter

variable {interpreter : Interpreter} {behaviour : Behaviour} {frame : Frame} {world : World}

/-- What is answered to the call that an instruction asks for, if it asks for one. -/
def reply? (interpreter : Interpreter) (behaviour : Behaviour) :
    Except Fault Action × World → Option CallResult
  | (.ok (.call _ method args), world) => some (behaviour method args world)
  | (.ok (.guarded _ call args), world) =>
      some (callGuarded interpreter.program behaviour call args world)
  | _ => none

/-- What a step comes to once its instruction was carried out. -/
def finish (interpreter : Interpreter) (behaviour : Behaviour) :
    Except Fault Action × World → Except Fault Progress × World
  | (.error fault, world) => (.error fault, world)
  | (.ok (.proceed frame), world) => (.ok (.running frame), world)
  | (.ok (.leave result), world) => (.ok (.left result), world)
  | (.ok (.call frame method args), world) => resume frame (behaviour method args world)
  | (.ok (.guarded frame call args), world) =>
      resume frame (callGuarded interpreter.program behaviour call args world)

/-- A step counts its instruction and then carries it out. -/
theorem step_eq {instr : Instr} (fetched : frame.code[frame.pc]? = some instr) :
    interpreter.step behaviour frame world =
      if interpreter.limits.budget < world.executed + 1 then
        (.error (.instructionLimit interpreter.limits.budget), world.counted)
      else
        interpreter.finish behaviour
          (Frame.act { frame with pc := frame.pc + 1 } world.counted instr) := by
  simp only [step, fetched, begin, World.counted]
  by_cases exhausted : interpreter.limits.budget < world.executed + 1
  · simp [exhausted]
  · simp only [exhausted, if_false]
    rcases Frame.act { frame with pc := frame.pc + 1 }
      { world with executed := world.executed + 1 } instr with ⟨fault | action, after⟩
    · rfl
    · cases action <;> rfl

/-- What is answered to the call that a frame makes next, if it makes one. -/
def answer? (interpreter : Interpreter) (behaviour : Behaviour) (frame : Frame) (world : World) :
    Option CallResult :=
  frame.code[frame.pc]?.bind fun instr =>
    interpreter.reply? behaviour
      (Frame.act { frame with pc := frame.pc + 1 } world.counted instr)

/-- One step of an execution that goes on. -/
def Advances (interpreter : Interpreter) (behaviour : Behaviour) (now next : Frame × World) :
    Prop :=
  interpreter.step behaviour now.1 now.2 = (.ok (.running next.1), next.2)

/-- A step goes on if it is within the budget and its instruction lets it. -/
theorem advances_iff {instr : Instr} {next : Frame × World}
    (fetched : frame.code[frame.pc]? = some instr) :
    interpreter.Advances behaviour (frame, world) next ↔
      world.executed < interpreter.limits.budget ∧
        interpreter.finish behaviour
            (Frame.act { frame with pc := frame.pc + 1 } world.counted instr) =
          (.ok (.running next.1), next.2) := by
  unfold Advances
  rw [step_eq fetched]
  by_cases exhausted : interpreter.limits.budget < world.executed + 1
  · have spent : ¬ world.executed < interpreter.limits.budget := by omega
    simp [exhausted, spent]
  · have left : world.executed < interpreter.limits.budget := by omega
    simp [exhausted, left]

/-- An execution that goes on for a number of steps. -/
def AdvancesBy (interpreter : Interpreter) (behaviour : Behaviour) :
    Nat → Frame × World → Frame × World → Prop
  | 0, now, last => now = last
  | count + 1, now, last =>
      ∃ next, interpreter.Advances behaviour now next ∧
        AdvancesBy interpreter behaviour count next last

theorem AdvancesBy.trans {first second : Nat} {now middle last : Frame × World}
    (front : interpreter.AdvancesBy behaviour first now middle)
    (back : interpreter.AdvancesBy behaviour second middle last) :
    interpreter.AdvancesBy behaviour (first + second) now last := by
  induction first generalizing now with
  | zero =>
      cases front
      rw [Nat.zero_add]
      exact back
  | succ first ih =>
      obtain ⟨next, step, later⟩ := front
      rw [Nat.succ_add]
      exact ⟨next, step, ih later⟩

/-- A number of steps splits at any sum. -/
theorem AdvancesBy.split {first second : Nat} {now last : Frame × World}
    (steps : interpreter.AdvancesBy behaviour (first + second) now last) :
    ∃ middle, interpreter.AdvancesBy behaviour first now middle ∧
      interpreter.AdvancesBy behaviour second middle last := by
  induction first generalizing now with
  | zero =>
      rw [Nat.zero_add] at steps
      exact ⟨now, rfl, steps⟩
  | succ first ih =>
      rw [Nat.succ_add] at steps
      obtain ⟨next, step, later⟩ := steps
      obtain ⟨middle, front, back⟩ := ih later
      exact ⟨middle, ⟨next, step, front⟩, back⟩

theorem AdvancesBy.reaches {count : Nat} {now last : Frame × World}
    (steps : interpreter.AdvancesBy behaviour count now last) :
    Relation.ReflTransGen (interpreter.Advances behaviour) now last := by
  induction count generalizing now with
  | zero =>
      cases steps
      exact .refl
  | succ count ih =>
      obtain ⟨next, step, later⟩ := steps
      exact .head step (ih later)

/-- The state after a number of steps, if the execution goes on for so long. -/
def follow (interpreter : Interpreter) (behaviour : Behaviour) :
    Nat → Frame × World → Option (Frame × World)
  | 0, now => some now
  | count + 1, now =>
      match interpreter.step behaviour now.1 now.2 with
      | (.ok (.running next), after) => follow interpreter behaviour count (next, after)
      | _ => none

theorem advancesBy_iff_follow {count : Nat} {now last : Frame × World} :
    interpreter.AdvancesBy behaviour count now last ↔
      interpreter.follow behaviour count now = some last := by
  induction count generalizing now with
  | zero => simp [AdvancesBy, follow]
  | succ count ih =>
      unfold AdvancesBy follow
      constructor
      · rintro ⟨next, step, later⟩
        have stepEq : interpreter.step behaviour now.1 now.2 = (.ok (.running next.1), next.2) :=
          step
        rw [stepEq]
        exact ih.mp later
      · intro followed
        split at followed
        · rename_i next after stepEq
          exact ⟨(next, after), stepEq, ih.mpr followed⟩
        · cases followed

/-- An execution that ends with the outcome, and until then stands at the given positions only. -/
inductive EndsWithin (interpreter : Interpreter) (behaviour : Behaviour) (positions : Nat → Prop) :
    Frame × World → CallResult → Prop
  | leaves {now result after} (here : positions now.1.pc)
      (left : interpreter.step behaviour now.1 now.2 = (.ok (.left result), after)) :
      EndsWithin interpreter behaviour positions now (.ok result, after)
  | fails {now fault after} (here : positions now.1.pc)
      (failed : interpreter.step behaviour now.1 now.2 = (.error fault, after)) :
      EndsWithin interpreter behaviour positions now (.error fault, after)
  | goesOn {now next outcome} (here : positions now.1.pc)
      (step : interpreter.Advances behaviour now next)
      (later : EndsWithin interpreter behaviour positions next outcome) :
      EndsWithin interpreter behaviour positions now outcome

/-- A run with a step more does what it does from the next state. -/
theorem Advances.run_eq {now next : Frame × World}
    (step : interpreter.Advances behaviour now next) (steps : Nat) :
    interpreter.run behaviour (steps + 1) now.1 now.2 =
      interpreter.run behaviour steps next.1 next.2 := by
  have stepEq : interpreter.step behaviour now.1 now.2 = (.ok (.running next.1), next.2) := step
  rw [run, stepEq]

theorem AdvancesBy.run_eq {count : Nat} {now last : Frame × World}
    (path : interpreter.AdvancesBy behaviour count now last) (steps : Nat) :
    interpreter.run behaviour (steps + count) now.1 now.2 =
      interpreter.run behaviour steps last.1 last.2 := by
  induction count generalizing now with
  | zero =>
      cases path
      rfl
  | succ count ih =>
      obtain ⟨next, step, later⟩ := path
      rw [← Nat.add_assoc, step.run_eq, ih later]

/-- A run that is long enough comes to the outcome with which the execution ends. -/
theorem EndsWithin.exists_run_eq {positions : Nat → Prop} {now : Frame × World}
    {outcome : CallResult} (ends : interpreter.EndsWithin behaviour positions now outcome) :
    ∃ count, ∀ steps, count ≤ steps → interpreter.run behaviour steps now.1 now.2 = outcome := by
  induction ends with
  | leaves _ left =>
      refine ⟨1, fun steps enough => ?_⟩
      obtain ⟨more, rfl⟩ := Nat.exists_eq_add_of_le' enough
      rw [run, left]
  | fails _ failed =>
      refine ⟨1, fun steps enough => ?_⟩
      obtain ⟨more, rfl⟩ := Nat.exists_eq_add_of_le' enough
      rw [run, failed]
  | goesOn _ step _ ih =>
      obtain ⟨count, runs⟩ := ih
      refine ⟨count + 1, fun steps enough => ?_⟩
      obtain ⟨more, rfl⟩ := Nat.exists_eq_add_of_le' enough
      rw [← Nat.add_assoc, step.run_eq]
      exact runs _ (Nat.le_add_left _ _)

/-- What an execution ends with is what a run comes to that leads there. -/
theorem EndsWithin.exists_run_eq_of_advancesBy {positions : Nat → Prop} {count : Nat}
    {start now : Frame × World} {outcome : CallResult}
    (ends : interpreter.EndsWithin behaviour positions now outcome)
    (path : interpreter.AdvancesBy behaviour count start now) :
    ∃ least, ∀ steps, least ≤ steps →
      interpreter.run behaviour steps start.1 start.2 = outcome := by
  obtain ⟨least, runs⟩ := ends.exists_run_eq
  refine ⟨least + count, fun steps enough => ?_⟩
  obtain ⟨more, rfl⟩ := Nat.exists_eq_add_of_le' enough
  rw [← Nat.add_assoc, path.run_eq]
  exact runs _ (Nat.le_add_left _ _)

/-- A run that fails does so at a state that its steps lead to, or runs out of patience. -/
theorem exists_of_run_eq_error {steps : Nat} {fault : Fault} {last : World}
    (failed : interpreter.run behaviour steps frame world = (.error fault, last)) :
    fault = .instructionLimit interpreter.limits.budget ∨
      ∃ reached, Relation.ReflTransGen (interpreter.Advances behaviour) (frame, world) reached ∧
        interpreter.step behaviour reached.1 reached.2 = (.error fault, last) := by
  induction steps generalizing frame world with
  | zero =>
      cases failed
      exact .inl rfl
  | succ steps ih =>
      unfold run at failed
      split at failed
      · rename_i cause after stepEq
        cases failed
        exact .inr ⟨(frame, world), .refl, stepEq⟩
      · cases failed
      · rename_i next after stepEq
        rcases ih failed with limit | ⟨reached, path, failing⟩
        · exact .inl limit
        · have step : interpreter.Advances behaviour (frame, world) (next, after) := stepEq
          exact .inr ⟨reached, .head step path, failing⟩

end Interpreter

end Weaver.Machine
