import Weaver.Proofs.Machine.Execution

/-!
# The count of instructions

Only steps count instructions, each its own one: whatever else a call does, the count never goes
back, in any program.
-/

namespace Weaver.Machine

theorem World.executed_alloc (world : World) (object : HeapObject) :
    (world.alloc object).2.executed = world.executed := by
  unfold alloc
  dsimp only
  split <;> rfl

theorem World.executed_allocStrings (world : World) (texts : List String) :
    (world.allocStrings texts).2.executed = world.executed := by
  induction texts generalizing world with
  | nil => rfl
  | cons text rest ih =>
      have first : (world.alloc (.string text)).2.executed = world.executed :=
        world.executed_alloc (.string text)
      unfold allocStrings
      rcases allocEq : world.alloc (.string text) with ⟨fault | value, after⟩
      · rw [allocEq] at first
        exact first
      · rw [allocEq] at first
        have later : (after.allocStrings rest).2.executed = after.executed := ih after
        dsimp only
        rcases restEq : after.allocStrings rest with ⟨fault | values, last⟩
        · rw [restEq] at later
          exact later.trans first
        · rw [restEq] at later
          exact later.trans first

namespace Frame

theorem executed_pushNew (frame : Frame) (world : World) (object : HeapObject) :
    (frame.pushNew world object).2.executed = world.executed := by
  have allocated : (world.alloc object).2.executed = world.executed :=
    world.executed_alloc object
  unfold pushNew
  rcases allocEq : world.alloc object with ⟨fault | value, after⟩
  · rw [allocEq] at allocated
    exact allocated
  · rw [allocEq] at allocated
    exact allocated

theorem executed_writeStatic {frame : Frame} {world : World} {field : FieldRef} {kind : Kind}
    {next : Frame × World} (written : frame.writeStatic world field kind = .ok next) :
    next.2.executed = world.executed := by
  unfold writeStatic at written
  cases popped : frame.popKind kind with
  | error fault =>
      rw [popped] at written
      cases written
  | ok value =>
      rw [popped] at written
      cases written
      rfl

theorem executed_writeField {frame : Frame} {world : World} {field : FieldRef} {kind : Kind}
    {next : Frame × World} (written : frame.writeField world field kind = .ok next) :
    next.2.executed = world.executed := by
  unfold writeField at written
  cases popped : frame.popKind kind with
  | error fault =>
      rw [popped] at written
      cases written
  | ok value =>
      simp only [popped, bind, Except.bind] at written
      split at written
      · cases written
      · split at written
        · cases written
        · cases written
          rfl

theorem executed_access (frame : Frame) (world : World) (op : FieldOp) (field : FieldRef) :
    (frame.access world op field).2.executed = world.executed := by
  unfold access
  cases field.type.kind? with
  | none => rfl
  | some kind =>
      cases op with
      | getStatic => rfl
      | getField => rfl
      | putStatic =>
          change (proceedWith world (frame.writeStatic world field kind)).2.executed = _
          cases written : frame.writeStatic world field kind with
          | error fault => rfl
          | ok next => exact executed_writeStatic written
      | putField =>
          change (proceedWith world (frame.writeField world field kind)).2.executed = _
          cases written : frame.writeField world field kind with
          | error fault => rfl
          | ok next => exact executed_writeField written

theorem executed_act (frame : Frame) (world : World) (instr : Instr) :
    (frame.act world instr).2.executed = world.executed := by
  cases instr with
  | const value =>
      cases value with
      | string text => exact frame.executed_pushNew world _
      | _ => rfl
  | new className => exact frame.executed_pushNew world _
  | field op field => exact frame.executed_access world op field
  | ret kind => cases kind <;> rfl
  | _ => rfl

end Frame

/-- Calls never take instructions back. -/
def Counts (behaviour : Behaviour) : Prop :=
  ∀ method args world, world.executed ≤ (behaviour method args world).2.executed

namespace Interpreter

variable {interpreter : Interpreter} {behaviour : Behaviour} {frame : Frame} {world : World}

@[simp]
theorem resume_world (waiting : Frame) (answer : CallResult) :
    (resume waiting answer).2 = answer.2 := by
  rcases answer with ⟨fault | result, after⟩ <;> rfl

theorem executed_callFallback (counts : Counts behaviour) (call : GuardedCall)
    (fallback : MethodRef) (world : World) :
    world.executed ≤ (callFallback behaviour call fallback world).2.executed := by
  have allocated : (world.allocStrings [call.context, call.target.owner,
      call.target.name]).2.executed = world.executed := world.executed_allocStrings _
  unfold callFallback
  split
  · rename_i fault after allocEq
    rw [allocEq] at allocated
    exact Nat.le_of_eq allocated.symm
  · rename_i report after allocEq
    rw [allocEq] at allocated
    have counted : after.executed ≤ (behaviour fallback report after).2.executed :=
      counts fallback report after
    split
    · rename_i fault last answered
      rw [answered] at counted
      exact Nat.le_trans (Nat.le_of_eq allocated.symm) counted
    · rename_i result last answered
      rw [answered] at counted
      exact Nat.le_trans (Nat.le_of_eq allocated.symm) counted

theorem executed_callGuarded (counts : Counts behaviour) (program : Program) (call : GuardedCall)
    (args : List Value) (world : World) :
    world.executed ≤ (callGuarded program behaviour call args world).2.executed := by
  unfold callGuarded
  split
  · exact executed_callFallback counts call _ world
  · split
    · exact executed_callFallback counts call _ world
    · exact counts call.target args world

theorem executed_finish (interpreter : Interpreter) (counts : Counts behaviour)
    (outcome : Except Fault Action × World) :
    outcome.2.executed ≤ (interpreter.finish behaviour outcome).2.executed := by
  rcases outcome with ⟨fault | action, after⟩
  · exact Nat.le_refl _
  · cases action with
    | proceed next => exact Nat.le_refl _
    | leave result => exact Nat.le_refl _
    | call waiting method args =>
        simpa only [finish, resume_world] using counts method args after
    | guarded waiting call args =>
        simpa only [finish, resume_world] using executed_callGuarded counts _ call args after

theorem executed_step (counts : Counts behaviour) (frame : Frame) (world : World) :
    world.executed ≤ (interpreter.step behaviour frame world).2.executed := by
  cases fetched : frame.code[frame.pc]? with
  | none =>
      have stuck : (interpreter.step behaviour frame world).2 = world := by
        rw [step, fetched]
      exact Nat.le_of_eq (congrArg World.executed stuck).symm
  | some instr =>
      rw [step_eq fetched]
      split
      · exact Nat.le_succ _
      · have counted := executed_finish interpreter counts
          (Frame.act { frame with pc := frame.pc + 1 } world.counted instr)
        rw [Frame.executed_act] at counted
        exact Nat.le_of_succ_le counted

/-- A step that goes on is within the budget and counts its instruction. -/
theorem executed_of_advances (counts : Counts behaviour) {now next : Frame × World}
    (advances : interpreter.Advances behaviour now next) :
    now.2.executed < interpreter.limits.budget ∧ now.2.executed < next.2.executed := by
  cases fetched : now.1.code[now.1.pc]? with
  | none =>
      have stuck : interpreter.step behaviour now.1 now.2 =
          (.error (now.1.corrupt .fellOffEnd), now.2) := by
        rw [step, fetched]
      cases stuck.symm.trans advances
  | some instr =>
      obtain ⟨budget, finished⟩ := (advances_iff fetched).mp advances
      have counted := executed_finish interpreter counts
        (Frame.act { now.1 with pc := now.1.pc + 1 } now.2.counted instr)
      rw [Frame.executed_act, finished] at counted
      exact ⟨budget, counted⟩

theorem executed_run (counts : Counts behaviour) (steps : Nat) (frame : Frame) (world : World) :
    world.executed ≤ (interpreter.run behaviour steps frame world).2.executed := by
  induction steps generalizing frame world with
  | zero => exact Nat.le_refl _
  | succ steps ih =>
      have stepped : world.executed ≤ (interpreter.step behaviour frame world).2.executed :=
        executed_step counts frame world
      unfold run
      rcases stepEq : interpreter.step behaviour frame world with ⟨fault | progress, after⟩
      · rw [stepEq] at stepped
        exact stepped
      · rw [stepEq] at stepped
        cases progress with
        | left result => exact stepped
        | running next => exact Nat.le_trans stepped (ih next after)

end Interpreter

namespace Intrinsic

variable {method : MethodRef} {args : List Value} {world : World} {answer : CallResult}

/-- What an intrinsic method does. -/
inductive Reacts (method : MethodRef) (args : List Value) (world : World) : CallResult → Prop
  /-- It constructs a wrapper from its arguments. -/
  | constructs {receiver name source cancellable}
      (argsEq : args = [receiver, name, source, cancellable]) :
      Reacts method args world (construct world receiver name source cancellable)
  /-- It cancels a wrapper. -/
  | cancels (receiver : Value) :
      Reacts method args world (change world receiver WrapperState.cancel)
  /-- It stores an argument as the value to return. -/
  | stores {receiver value} (argsEq : args = [receiver, value]) :
      Reacts method args world
        (change world receiver fun state => .ok { state with returnValue := some value })
  /-- It tells whether a wrapper was cancelled. -/
  | tellsCancelled (receiver : Value) :
      Reacts method args world
        (ask world receiver fun state => .ok (.ofBool state.cancelled))
  /-- It tells which value was stored. -/
  | tellsStored (receiver : Value) :
      Reacts method args world
        (ask world receiver fun state => returnValue method state.returnValue)
  /-- It reports what is missing. -/
  | reports (missing : String) :
      Reacts method args world (.ok none, reportMissing world method.name missing args)

theorem reacts_of_constructor? (known : constructor? method args world = some answer) :
    Reacts method args world answer := by
  unfold constructor? at known
  split at known
  · split at known
    · cases known
      exact .constructs rfl
    · cases known
  · cases known

theorem reacts_of_wrapperMethod? (known : wrapperMethod? method args world = some answer) :
    Reacts method args world answer := by
  unfold wrapperMethod? at known
  split at known
  · cases known
  · rename_i receiver rest
    split at known
    · cases known
      exact .tellsCancelled receiver
    · split at known
      · cases known
        exact .cancels receiver
      · split at known
        · rename_i stores
          cases known
          obtain ⟨value, rfl⟩ := List.length_eq_one_iff.mp stores.2
          exact .stores rfl
        · split at known
          · cases known
            exact .tellsStored receiver
          · cases known

theorem reacts_of_supportMethod? (known : supportMethod? method args world = some answer) :
    Reacts method args world answer := by
  unfold supportMethod? at known
  split at known
  · cases known
    exact .reports _
  · split at known
    · cases known
      exact .reports _
    · cases known

theorem reacts_of_call? (known : call? method args world = some answer) :
    Reacts method args world answer := by
  unfold call? at known
  split at known
  · exact reacts_of_supportMethod? known
  · split at known
    · cases constructed : constructor? method args world with
      | some first =>
          rw [constructed] at known
          cases known
          exact reacts_of_constructor? constructed
      | none =>
          rw [constructed] at known
          exact reacts_of_wrapperMethod? known
    · cases known

theorem executed_change (world : World) (receiver : Value)
    (update : WrapperState → Except Fault WrapperState) :
    (change world receiver update).2.executed = world.executed := by
  unfold change
  split <;> rfl

theorem world_ask (world : World) (receiver : Value)
    (question : WrapperState → Except Fault Value) : (ask world receiver question).2 = world := by
  unfold ask
  split <;> rfl

theorem executed_call? (known : call? method args world = some answer) :
    answer.2.executed = world.executed := by
  cases reacts_of_call? known with
  | constructs | cancels | stores => exact executed_change world _ _
  | tellsCancelled | tellsStored => rw [world_ask]
  | reports => rfl

end Intrinsic

namespace Interpreter

/-- Calls of a program take no instructions back if its bodies do not. -/
theorem counts_behaviour (program : Program) {execute : Body → List Value → World → CallResult}
    (counted : ∀ body args world, world.executed ≤ (execute body args world).2.executed) :
    Counts (behaviour program execute) := by
  intro method args world
  unfold behaviour
  split
  · rename_i result known
    exact Nat.le_of_eq (Intrinsic.executed_call? known).symm
  · split
    · exact counted _ args world
    · exact Nat.le_refl _
    · split <;> exact Nat.le_refl _

/-- Executing a body takes no instructions back. -/
theorem executed_executeWithin (interpreter : Interpreter) (depth : Nat) (body : Body)
    (args : List Value) (world : World) :
    world.executed ≤ (interpreter.executeWithin depth body args world).2.executed := by
  induction depth generalizing body args world with
  | zero => exact Nat.le_refl _
  | succ depth ih =>
      unfold executeWithin
      split
      · exact Nat.le_refl _
      · exact executed_run (counts_behaviour interpreter.program ih) _ _ world

end Interpreter

end Weaver.Machine
