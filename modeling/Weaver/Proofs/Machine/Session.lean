import Weaver.Proofs.Machine.Completion

/-!
# Sessions

The interpreter move by move, with its open frames in sight.  A session is what the interpreter is
at, the frames that wait for the answer to a call, and a counter of open frames: it goes up where a
body is about to be entered, and down where its frame returns or fails.  The recursive interpreter
keeps no such counter, only the depth that is left.  Every call returns in a finite number of moves,
at any depth and on every path, with the answer of the recursive interpreter and with the frames and
the counter as they were.
-/

namespace Weaver.Machine

/-- What a frame takes of the answer for which it waits. -/
inductive Receipt where
  /-- The result of the call. -/
  | result
  /-- The zero value of a type, for a call that reported a missing method. -/
  | zeroOf (type : Ty)

/-- What is taken of a result. -/
def Receipt.take : Receipt → Option Value → Option Value
  | .result, value => value
  | .zeroOf type, _ => Value.zeroOf? type

/-- What an interpreter is at. -/
inductive Stage where
  /-- It calls a method. -/
  | calling (method : MethodRef) (args : List Value)
  /-- It executes a body, as far as another frame may be opened. -/
  | executing (body : Body) (args : List Value)
  /-- It makes the frame of a body, which is counted already. -/
  | entering (body : Body) (args : List Value)
  /-- It is about to carry out an instruction of a frame. -/
  | running (frame : Frame)
  /-- It has the answer to a call. -/
  | answering (answer : Except Fault (Option Value))

/-- The state of an interpreter between two moves. -/
structure Session where
  stage : Stage
  /-- The frames that wait for an answer, the latest first. -/
  waiting : List (Frame × Receipt)
  /-- The counter of open frames. -/
  opened : Nat
  world : World

/-- The method that is called in place of a missing one. -/
def Program.fallback? (program : Program) (call : GuardedCall) : Option MethodRef :=
  if !program.hasClass call.target.owner then some call.onMissingClass
  else if (program.resolve? call.target).isNone then some call.onMissingMethod
  else none

namespace Session

/-- The session with the answer to what it was at. -/
def settle (session : Session) (answer : CallResult) : Session :=
  { session with stage := .answering answer.1, world := answer.2 }

/-- The session with the answer of its open frame, which is closed. -/
def close (session : Session) (answer : CallResult) : Session :=
  { session with
    stage := .answering answer.1
    opened := session.opened - 1
    world := answer.2 }

/-- The session in which a frame goes on. -/
def proceed (session : Session) (frame : Frame) (world : World) : Session :=
  { session with stage := .running frame, world }

/-- The session in which a frame waits for the answer to a call. -/
def wait (session : Session) (frame : Frame) (receipt : Receipt) (method : MethodRef)
    (args : List Value) (world : World) : Session :=
  { session with
    stage := .calling method args
    waiting := (frame, receipt) :: session.waiting
    world }

/-- The session behind an instruction. -/
def follow (program : Program) (session : Session) : Except Fault Action × World → Session
  | (.error fault, world) => session.close (.error fault, world)
  | (.ok (.proceed frame), world) => session.proceed frame world
  | (.ok (.leave result), world) => session.close (.ok result, world)
  | (.ok (.call frame method args), world) => session.wait frame .result method args world
  | (.ok (.guarded frame call args), world) =>
      match program.fallback? call with
      | none => session.wait frame .result call.target args world
      | some fallback =>
          match world.allocStrings [call.context, call.target.owner, call.target.name] with
          | (.error fault, world) => session.close (.error fault, world)
          | (.ok report, world) =>
              session.wait frame (.zeroOf call.target.signature.ret) fallback report world

/-- Carry out the next instruction of a frame. -/
def carryOut (interpreter : Interpreter) (session : Session) (frame : Frame) : Session :=
  match frame.code[frame.pc]? with
  | none => session.close (.error (frame.corrupt .fellOffEnd), session.world)
  | some instr =>
      match Interpreter.begin interpreter.limits session.world with
      | (.error fault, world) => session.close (.error fault, world)
      | (.ok (), world) =>
          session.follow interpreter.program
            (Frame.act { frame with pc := frame.pc + 1 } world instr)

/-- Find out what a method stands for, and answer at once unless that is a body. -/
def dispatch (program : Program) (session : Session) (method : MethodRef) (args : List Value) :
    Session :=
  match Intrinsic.call? method args session.world with
  | some answer => session.settle answer
  | none =>
      match program.resolve? method with
      | some (.body body) => { session with stage := .executing body args }
      | some (.native native) =>
          let (result, state) := native method args ⟨session.world.heap, session.world.trace⟩
          session.settle
            (result, { session.world with heap := state.heap, trace := state.trace })
      | none =>
          if method.name = Wrapper.constructorName then session.settle (.ok none, session.world)
          else session.settle (.error (.missingMethod method), session.world)

/-- Open another frame, as far as the call depth goes. -/
def openFrame (limits : Limits) (session : Session) (body : Body) (args : List Value) : Session :=
  if limits.callDepth ≤ session.opened then
    session.settle (.error (.callDepthLimit limits.callDepth), session.world)
  else { session with stage := .entering body args, opened := session.opened + 1 }

/-- Make the frame of a body. -/
def enter (session : Session) (body : Body) (args : List Value) : Session :=
  match Frame.enter body args with
  | .error fault => session.close (.error fault, session.world)
  | .ok frame => session.proceed frame session.world

/-- Give an answer to the latest of the waiting frames.  A fault ends that frame as well. -/
def receive? (session : Session) (answer : Except Fault (Option Value)) : Option Session :=
  match session.waiting with
  | [] => none
  | (frame, receipt) :: waiting =>
      let session := { session with waiting }
      match answer >>= fun result => frame.pushResult (receipt.take result) with
      | .error fault => some (session.close (.error fault, session.world))
      | .ok next => some (session.proceed next session.world)

/-- The session after its next move; none is left when the last answer is given. -/
def next? (interpreter : Interpreter) (session : Session) : Option Session :=
  match session.stage with
  | .calling method args => some (session.dispatch interpreter.program method args)
  | .executing body args => some (session.openFrame interpreter.limits body args)
  | .entering body args => some (session.enter body args)
  | .running frame => some (session.carryOut interpreter frame)
  | .answering answer => session.receive? answer

/-- A session counts the next instruction of its frame and then carries it out. -/
theorem carryOut_eq {interpreter : Interpreter} {session : Session} {frame : Frame} {instr : Instr}
    (fetched : frame.code[frame.pc]? = some instr) :
    session.carryOut interpreter frame =
      if interpreter.limits.budget < session.world.executed + 1 then
        session.close
          (.error (.instructionLimit interpreter.limits.budget), session.world.counted)
      else
        session.follow interpreter.program
          (Frame.act { frame with pc := frame.pc + 1 } session.world.counted instr) := by
  simp only [carryOut, fetched, Interpreter.begin, World.counted]
  by_cases exhausted : interpreter.limits.budget < session.world.executed + 1
  · simp [exhausted]
  · simp only [exhausted, if_false]

end Session

namespace Interpreter

variable {interpreter : Interpreter} {behaviour : Behaviour} {session : Session}

/-- One move of a session. -/
def Moves (interpreter : Interpreter) (now next : Session) : Prop :=
  now.next? interpreter = some next

/-- Finitely many moves of a session. -/
def MovesTo (interpreter : Interpreter) : Session → Session → Prop :=
  Relation.ReflTransGen interpreter.Moves

/-- With so many frames open, calls come to what the behaviour answers, and leave the waiting frames
and the counter as they were. -/
def Answers (interpreter : Interpreter) (opened : Nat) (behaviour : Behaviour) : Prop :=
  ∀ session : Session, session.opened = opened → ∀ method args,
    session.stage = .calling method args →
    interpreter.MovesTo session (session.settle (behaviour method args session.world))

/-- The session after a step of its frame. -/
def progress (session : Session) : Except Fault Progress × World → Session
  | (.error fault, world) => session.close (.error fault, world)
  | (.ok (.left result), world) => session.close (.ok result, world)
  | (.ok (.running frame), world) => session.proceed frame world

/-- A frame that waits for an answer goes on with what it takes of it. -/
theorem moves_of_answer (waiting : Frame) (receipt : Receipt) (method : MethodRef)
    (args : List Value) (world : World) (answer : CallResult) :
    interpreter.Moves ((session.wait waiting receipt method args world).settle answer)
      (progress session (resume waiting (answer.1.map receipt.take, answer.2))) := by
  unfold Moves
  rcases answer with ⟨fault | result, after⟩
  · rfl
  · simp only [Session.next?, Session.settle, Session.wait, Session.receive?, Except.map, resume,
      bind, Except.bind]
    cases waiting.pushResult (receipt.take result) <;> rfl

/-- A frame that waits for the result of a call goes on with it. -/
theorem movesTo_of_call (answers : interpreter.Answers session.opened behaviour) (waiting : Frame)
    (method : MethodRef) (args : List Value) (world : World) :
    interpreter.MovesTo (session.wait waiting .result method args world)
      (progress session (resume waiting (behaviour method args world))) := by
  have answered := answers (session.wait waiting .result method args world) rfl method args rfl
  have taken : behaviour method args world =
      ((behaviour method args world).1.map Receipt.result.take, (behaviour method args world).2) := by
    rcases behaviour method args world with ⟨fault | result, after⟩ <;> rfl
  rw [taken]
  exact answered.tail (moves_of_answer waiting .result method args world _)

/-- A call in place of a missing method is answered with a zero value once the report is there. -/
theorem callFallback_eq {call : GuardedCall} {fallback : MethodRef} {world after : World}
    {report : List Value}
    (allocated : world.allocStrings [call.context, call.target.owner, call.target.name] =
      (.ok report, after)) :
    callFallback behaviour call fallback world =
      ((behaviour fallback report after).1.map (Receipt.zeroOf call.target.signature.ret).take,
        (behaviour fallback report after).2) := by
  rw [callFallback, allocated]
  dsimp only
  rcases behaviour fallback report after with ⟨fault | result, last⟩ <;> rfl

/-- A frame whose call reports a missing method goes on with a zero value. -/
theorem movesTo_of_fallback (answers : interpreter.Answers session.opened behaviour)
    (waiting : Frame) (call : GuardedCall) (args : List Value) (world : World)
    {fallback : MethodRef} (missing : interpreter.program.fallback? call = some fallback) :
    interpreter.MovesTo
      (session.follow interpreter.program (.ok (.guarded waiting call args), world))
      (progress session (resume waiting (callFallback behaviour call fallback world))) := by
  simp only [Session.follow, missing]
  rcases allocated : world.allocStrings [call.context, call.target.owner, call.target.name] with
    ⟨fault | report, after⟩
  · rw [callFallback, allocated]
    exact .refl
  · rw [callFallback_eq allocated]
    let receipt := Receipt.zeroOf call.target.signature.ret
    have answered :=
      answers (session.wait waiting receipt fallback report after) rfl fallback report rfl
    exact answered.tail (moves_of_answer waiting receipt fallback report after _)

/-- A guarded call is one of its target, or else of a fallback. -/
theorem callGuarded_eq_fallback (program : Program) (call : GuardedCall) (args : List Value)
    (world : World) :
    callGuarded program behaviour call args world =
      match program.fallback? call with
      | none => behaviour call.target args world
      | some fallback => callFallback behaviour call fallback world := by
  unfold callGuarded Program.fallback?
  split
  · rfl
  · split <;> rfl

/-- What an instruction asks for comes to what the step of its frame comes to. -/
theorem movesTo_of_follow (answers : interpreter.Answers session.opened behaviour)
    (outcome : Except Fault Action × World) :
    interpreter.MovesTo (session.follow interpreter.program outcome)
      (progress session (interpreter.finish behaviour outcome)) := by
  rcases outcome with ⟨fault | action, world⟩
  · exact .refl
  · cases action with
    | proceed frame => exact .refl
    | leave result => exact .refl
    | call waiting method args => exact movesTo_of_call answers waiting method args world
    | guarded waiting call args =>
        rw [finish, callGuarded_eq_fallback]
        cases missing : interpreter.program.fallback? call with
        | none =>
            simp only [Session.follow, missing]
            exact movesTo_of_call answers waiting call.target args world
        | some fallback => exact movesTo_of_fallback answers waiting call args world missing

/-- A session with a frame comes to what the step of the frame comes to. -/
theorem movesTo_of_step (answers : interpreter.Answers session.opened behaviour) {frame : Frame}
    (running : session.stage = .running frame) :
    interpreter.MovesTo session
      (progress session (interpreter.step behaviour frame session.world)) := by
  have move : interpreter.Moves session (session.carryOut interpreter frame) := by
    rw [Moves, Session.next?, running]
  apply Relation.ReflTransGen.head move
  cases fetched : frame.code[frame.pc]? with
  | none =>
      simp only [Session.carryOut, step, fetched]
      exact .refl
  | some instr =>
      rw [step_eq fetched, Session.carryOut_eq fetched]
      split
      · exact .refl
      · exact movesTo_of_follow answers _

/-- A frame that is run for long enough is closed with what the run comes to. -/
theorem movesTo_of_run (answers : interpreter.Answers session.opened behaviour)
    (counts : Counts behaviour) {steps : Nat} {frame : Frame}
    (running : session.stage = .running frame)
    (enough : interpreter.patience session.world ≤ steps) :
    interpreter.MovesTo session
      (session.close (interpreter.run behaviour steps frame session.world)) := by
  induction steps generalizing session frame with
  | zero =>
      unfold patience at enough
      omega
  | succ steps ih =>
      have stepped : interpreter.MovesTo session _ := movesTo_of_step answers running
      unfold run
      split
      · rename_i fault after stepEq
        rw [stepEq] at stepped
        exact stepped
      · rename_i result after stepEq
        rw [stepEq] at stepped
        exact stepped
      · rename_i next after stepEq
        rw [stepEq] at stepped
        have advances : interpreter.Advances behaviour (frame, session.world) (next, after) :=
          stepEq
        obtain ⟨budget, counted⟩ := executed_of_advances counts advances
        have shorter : interpreter.patience after ≤ steps := by
          unfold patience at enough ⊢
          dsimp only at budget counted
          omega
        have answersLater : interpreter.Answers (session.proceed next after).opened behaviour :=
          answers
        exact stepped.trans (ih answersLater rfl shorter)

/-- Calls come to their answers if the bodies do that they execute. -/
theorem answers_of_executions {opened : Nat} {execute : Body → List Value → World → CallResult}
    (executes : ∀ session : Session, session.opened = opened → ∀ body args,
      session.stage = .executing body args →
      interpreter.MovesTo session (session.settle (execute body args session.world))) :
    interpreter.Answers opened (Interpreter.behaviour interpreter.program execute) := by
  intro session openedEq method args calling
  have move : interpreter.Moves session
      (session.dispatch interpreter.program method args) := by
    rw [Moves, Session.next?, calling]
  apply Relation.ReflTransGen.head move
  unfold Session.dispatch Interpreter.behaviour
  cases Intrinsic.call? method args session.world with
  | some answer => exact .refl
  | none =>
      rcases interpreter.program.resolve? method with _ | body | native
      · dsimp only
        split <;> exact .refl
      · exact executes { session with stage := .executing body args } openedEq body args rfl
      · exact .refl

/-- Executing a body comes to what the recursive interpreter answers with the depth that is left. -/
theorem movesTo_of_executing {depth : Nat} {body : Body} {args : List Value}
    (executing : session.stage = .executing body args)
    (left : interpreter.limits.callDepth - session.opened = depth) :
    interpreter.MovesTo session
      (session.settle (interpreter.executeWithin depth body args session.world)) := by
  induction depth generalizing session body args with
  | zero =>
      apply Relation.ReflTransGen.single
      rw [Moves, Session.next?, executing]
      simp only [Session.openFrame, if_pos (Nat.le_of_sub_eq_zero left)]
      rfl
  | succ depth ih =>
      have room : ¬ interpreter.limits.callDepth ≤ session.opened := by omega
      let entering : Session :=
        { session with stage := .entering body args, opened := session.opened + 1 }
      have opens : interpreter.Moves session entering := by
        rw [Moves, Session.next?, executing]
        simp only [Session.openFrame, if_neg room, entering]
      have enters : interpreter.Moves entering (entering.enter body args) := rfl
      refine .head opens (.head enters ?_)
      unfold Session.enter executeWithin
      cases Frame.enter body args with
      | error fault => exact .refl
      | ok frame =>
          let inside := entering.proceed frame session.world
          have answers : interpreter.Answers inside.opened
              (Interpreter.behaviour interpreter.program (interpreter.executeWithin depth)) := by
            apply answers_of_executions
            intro inner openedEq body args executing
            have less : interpreter.limits.callDepth - (session.opened + 1) = depth := by omega
            exact ih executing (by rw [openedEq]; exact less)
          have counts : Counts
              (Interpreter.behaviour interpreter.program (interpreter.executeWithin depth)) :=
            counts_behaviour interpreter.program (interpreter.executed_executeWithin depth)
          have running : inside.stage = .running frame := rfl
          exact movesTo_of_run answers counts running (Nat.le_refl _)

/-- A call comes to what the recursive interpreter answers with the depth that is left. -/
theorem answers_behaviour (interpreter : Interpreter) (opened : Nat) :
    interpreter.Answers opened
      (Interpreter.behaviour interpreter.program
        (interpreter.executeWithin (interpreter.limits.callDepth - opened))) := by
  apply answers_of_executions
  intro session openedEq body args executing
  exact movesTo_of_executing executing (by rw [openedEq])

end Interpreter

end Weaver.Machine
