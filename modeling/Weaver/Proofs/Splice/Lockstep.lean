import Weaver.Proofs.Splice.Mirror

/-!
# Lock-step of a body and the woven code

`Frame.act` on the woven frame mirrors `Frame.act` on the frame of the body, instruction by
instruction.  An instruction that does not branch leaves the woven frame where control falls through,
and a branch takes it to the relocated label; whatever a called method answers is taken up alike.
-/

namespace Weaver.Machine

/-- The action on the woven frame beside an action on the frame of the body. -/
def Action.image (woven : Body) (extra : Array Slot) (place : Nat → Nat) : Action → Action
  | .proceed frame => .proceed (frame.image woven extra place)
  | .call frame method args => .call (frame.image woven extra place) method args
  | .guarded frame target args => .guarded (frame.image woven extra place) target args
  | .leave result => .leave result

/-- The frame of an action, if it has one, executes the body. -/
def Action.Executes (body : Body) : Action → Prop
  | .proceed frame | .call frame _ _ | .guarded frame _ _ => frame.Executes body
  | .leave _ => True

/-- The progress of the woven frame beside that of the frame of the body. -/
def Progress.image (woven : Body) (extra : Array Slot) (place : Nat → Nat) : Progress → Progress
  | .running frame => .running (frame.image woven extra place)
  | .left result => .left result

/-- The frame of a progress, if it goes on, executes the body. -/
def Progress.Executes (body : Body) : Progress → Prop
  | .running frame => frame.Executes body
  | .left _ => True

namespace Frame

/-- Whether an instruction takes a branch. -/
def branches (frame : Frame) : Instr → Bool
  | .jump cond _ => (frame.test cond).toOption.any Prod.fst
  | _ => false

variable {body woven : Body} {frame : Frame} {extra : Array Slot} {place : Nat → Nat}

theorem Executes.test (executes : frame.Executes body) (widens : Splice.Widens body woven)
    (cond : Cond) :
    Mirrors (Splice.Roomier body woven) (fun tested => tested.2.Executes body) (imageOf woven extra place) (frame.test cond)
      ((frame.image woven extra place).test cond) := by
  refine test_cases (motive := fun _ test => Mirrors (Splice.Roomier body woven) (fun tested => tested.2.Executes body)
    (imageOf woven extra place) (test frame) (test (frame.image woven extra place)))
    ?_ ?_ ?_ ?_ cond
  · exact ⟨rfl, executes⟩
  · intro _ answer _ _
    exact (executes.popInt widens).bind fun top below => ⟨rfl, below⟩
  · intro _ answer _ _
    exact (executes.popKind widens .reference).bind fun top below => ⟨rfl, below⟩
  · intro _ answer _ _
    apply (executes.popInt widens).bind
    intro first below
    exact (below.popInt widens).bind fun second under => ⟨rfl, under⟩

theorem Executes.calculate (executes : frame.Executes body) (widens : Splice.Widens body woven)
    (op : ArithOp) (kind : Kind) :
    Mirrors (Splice.Roomier body woven) (Executes body) (image woven extra place) (frame.calculate op kind)
      ((frame.image woven extra place).calculate op kind) := by
  apply (executes.popKind widens kind).bind
  intro right below
  apply (below.popKind widens kind).bind
  intro left under
  simp only [Prod.map, id]
  cases arith? op left.1 right.1 with
  | none => exact .inr (congrArg Except.error (under.corrupt widens .operandMismatch))
  | some value => exact under.push widens value

theorem Executes.duplicate (executes : frame.Executes body) (widens : Splice.Widens body woven) :
    Mirrors (Splice.Roomier body woven) (Executes body) (image woven extra place) frame.duplicate
      (frame.image woven extra place).duplicate := by
  have sameStack : (frame.image woven extra place).stack = frame.stack := rfl
  unfold Frame.duplicate
  rw [sameStack, executes.corrupt widens]
  split
  · split
    · exact executes.push widens _
    · exact .inr rfl
  · exact .inr rfl

theorem Executes.cast (executes : frame.Executes body) (widens : Splice.Widens body woven)
    (heap : Heap) (className : String) :
    Mirrors (Splice.Roomier body woven) (Executes body) (image woven extra place) (frame.cast heap className)
      ((frame.image woven extra place).cast heap className) := by
  apply (executes.popKind widens .reference).bind
  intro popped below
  exact (Mirrors.refl (heap.checkCast popped.1 className)).bind fun _ _ =>
    below.push widens popped.1

theorem Executes.readField (executes : frame.Executes body) (widens : Splice.Widens body woven)
    (world : World) (field : FieldRef) (kind : Kind) :
    Mirrors (Splice.Roomier body woven) (Executes body) (image woven extra place) (frame.readField world field kind)
      ((frame.image woven extra place).readField world field kind) := by
  apply (executes.popKind widens .reference).bind
  intro popped below
  exact (Mirrors.refl (world.heap.instance? popped.1)).bind fun _ _ => below.push widens _

theorem Executes.writeStatic (executes : frame.Executes body) (widens : Splice.Widens body woven)
    (world : World) (field : FieldRef) (kind : Kind) :
    Mirrors (Splice.Roomier body woven) (fun next => next.1.Executes body) (Prod.map (image woven extra place) id)
      (frame.writeStatic world field kind)
      ((frame.image woven extra place).writeStatic world field kind) :=
  (executes.popKind widens kind).bind fun _ below => ⟨rfl, below⟩

theorem Executes.writeField (executes : frame.Executes body) (widens : Splice.Widens body woven)
    (world : World) (field : FieldRef) (kind : Kind) :
    Mirrors (Splice.Roomier body woven) (fun next => next.1.Executes body) (Prod.map (image woven extra place) id)
      (frame.writeField world field kind)
      ((frame.image woven extra place).writeField world field kind) := by
  apply (executes.popKind widens kind).bind
  intro popped below
  apply (below.popKind widens .reference).bind
  intro receiver under
  exact (Mirrors.refl (world.heap.instance? receiver.1)).bind fun _ _ => ⟨rfl, under⟩

end Frame

/-- A result with the world after it is mirrored by the image of the result with the same world. -/
def Tracks {α β : Type} (roomier : Prop) (keeps : α → Prop) (image : α → β) (result : Except Fault α × World)
    (other : Except Fault β × World) : Prop :=
  match result with
  | (.ok value, world) => other = (.ok (image value), world) ∧ keeps value
  | (.error fault, world) => (roomier ∧ fault.exceeds = true) ∨ other = (.error fault, world)

theorem Mirrors.tracks {α β : Type} {roomier : Prop} {keeps : α → Prop} {image : α → β}
    {result : Except Fault α} {other : Except Fault β}
    (mirrors : Mirrors roomier keeps image result other) (world : World) :
    Tracks roomier keeps image (result, world) (other, world) := by
  cases result with
  | error fault => exact Or.imp_right (congrArg (·, world)) mirrors
  | ok value => exact ⟨congrArg (·, world) mirrors.1, mirrors.2⟩

namespace Frame

variable {body woven : Body} {frame : Frame} {extra : Array Slot} {place : Nat → Nat}

/-- The frame beside the one that goes on, in the same world. -/
theorem Mirrors.proceeds {result other : Except Fault Frame} (world : World)
    (mirrors : Mirrors (Splice.Roomier body woven) (Executes body) (image woven extra place) result other) :
    Tracks (Splice.Roomier body woven) (Action.Executes body) (Action.image woven extra place)
      (result.map .proceed, world) (other.map .proceed, world) := by
  apply Machine.Mirrors.tracks
  apply mirrors.map
  intro next kept
  exact ⟨rfl, kept⟩

theorem tracks_proceedWith {world : World} {result other : Except Fault (Frame × World)}
    (mirrors : Mirrors (Splice.Roomier body woven) (fun next => next.1.Executes body) (Prod.map (image woven extra place) id)
      result other) :
    Tracks (Splice.Roomier body woven) (Action.Executes body) (Action.image woven extra place) (proceedWith world result)
      (proceedWith world other) := by
  cases result with
  | error fault => exact Or.imp_right (congrArg (proceedWith world)) mirrors
  | ok next => exact ⟨congrArg (proceedWith world) mirrors.1, mirrors.2⟩

theorem Executes.access (executes : frame.Executes body) (widens : Splice.Widens body woven)
    (world : World) (op : FieldOp) (field : FieldRef) :
    Tracks (Splice.Roomier body woven) (Action.Executes body) (Action.image woven extra place) (frame.access world op field)
      ((frame.image woven extra place).access world op field) := by
  unfold Frame.access
  rw [executes.corrupt widens]
  cases field.type.kind? with
  | none => exact .inr rfl
  | some kind =>
      cases op with
      | getStatic => exact Mirrors.proceeds world (executes.push widens _)
      | putStatic => exact tracks_proceedWith (executes.writeStatic widens world field kind)
      | getField => exact Mirrors.proceeds world (executes.readField widens world field kind)
      | putField => exact tracks_proceedWith (executes.writeField widens world field kind)

theorem Executes.prepareCall (executes : frame.Executes body) (widens : Splice.Widens body woven)
    (mode : CallMode) (method : MethodRef) :
    Mirrors (Splice.Roomier body woven) (Action.Executes body) (Action.image woven extra place)
      (frame.prepareCall mode method)
      ((frame.image woven extra place).prepareCall mode method) := by
  apply (executes.popArgs widens method mode.hasReceiver).bind
  intro popped below
  simp only [Prod.map, id]
  split
  · exact .inr (congrArg Except.error (below.corrupt widens (.nullReceiver method)))
  · exact ⟨rfl, below⟩

theorem Executes.pushNew (executes : frame.Executes body) (widens : Splice.Widens body woven)
    (world : World) (object : HeapObject) :
    Tracks (Splice.Roomier body woven) (Action.Executes body) (Action.image woven extra place) (frame.pushNew world object)
      ((frame.image woven extra place).pushNew world object) := by
  unfold Frame.pushNew
  rcases world.alloc object with ⟨fault | value, after⟩
  · exact .inr rfl
  · exact Mirrors.proceeds after (executes.push widens value)

/-- An instruction that has no label to go to does the same at any position. -/
theorem Executes.act (executes : frame.Executes body) (widens : Splice.Widens body woven)
    (world : World) {instr : Instr} (straight : instr.target? = none) :
    Tracks (Splice.Roomier body woven) (Action.Executes body) (Action.image woven extra place) (frame.act world instr)
      ((frame.image woven extra place).act world instr) := by
  cases instr with
  | nop => exact ⟨rfl, executes⟩
  | label => exact ⟨rfl, executes⟩
  | const constant =>
      cases constant with
      | string text => exact executes.pushNew widens world (.string text)
      | null => exact Mirrors.proceeds world (executes.push widens .null)
      | int value => exact Mirrors.proceeds world (executes.push widens (.int value))
      | long value => exact Mirrors.proceeds world (executes.push widens (.long value))
      | float value => exact Mirrors.proceeds world (executes.push widens (.float value))
      | double value => exact Mirrors.proceeds world (executes.push widens (.double value))
  | load kind slot =>
      exact Mirrors.proceeds world
        ((executes.loadLocal widens kind slot).bind fun value _ => executes.push widens value)
  | store kind slot =>
      exact Mirrors.proceeds world ((executes.popKind widens kind).bind fun popped below =>
        below.storeLocal widens slot popped.1)
  | pop =>
      exact Mirrors.proceeds world ((executes.popSlot widens).map fun _ below => ⟨rfl, below⟩)
  | dup => exact Mirrors.proceeds world (executes.duplicate widens)
  | arith op kind => exact Mirrors.proceeds world (executes.calculate widens op kind)
  | new className => exact executes.pushNew widens world (.ofClass className)
  | checkCast className =>
      exact Mirrors.proceeds world (executes.cast widens world.heap className)
  | field op field => exact executes.access widens world op field
  | call mode method => exact (executes.prepareCall widens mode method).tracks world
  | guardedCall guarded =>
      apply Machine.Mirrors.tracks
      apply (executes.popArgs widens guarded.target false).map
      intro popped below
      exact ⟨rfl, below⟩
  | jump cond target => cases straight
  | ret kind? =>
      cases kind? with
      | none => exact ⟨rfl, trivial⟩
      | some kind =>
          apply Machine.Mirrors.tracks
          apply (executes.popKind widens kind).map
          intro popped below
          exact ⟨rfl, trivial⟩
  | throw =>
      refine Machine.Mirrors.tracks ((executes.popKind widens .reference).bind
        fun popped below => ?_) world
      exact .inr (congrArg Except.error (below.corrupt widens (.uncaughtThrow popped.1)))

/-- A branch goes to the relocated label, and falls through where the body does. -/
theorem Executes.act_jump (executes : frame.Executes body) {index : Nat} {run : List Instr}
    (inserted : Splice.Inserted body index run woven) (world : World) {cond : Cond}
    {target : Label} (member : Instr.jump cond target ∈ body.code.instrs) :
    Tracks (Splice.Roomier body woven) (Action.Executes body)
      (Action.image woven extra
        (Splice.landing index run.length (frame.branches (.jump cond target))))
      (frame.act world (.jump cond target))
      ((frame.image woven extra (Splice.entrance index run.length)).act world
        (.jump cond target)) := by
  apply Mirrors.proceeds
  have tested : Mirrors (Splice.Roomier body woven) (fun tested => tested.2.Executes body)
      (imageOf woven extra (Splice.entrance index run.length)) _ _ :=
    executes.test inserted.toWidens cond
  cases testEq : frame.test cond with
  | error fault =>
      rw [testEq] at tested
      rcases tested with exceeds | otherEq
      · exact .inl exceeds
      · rw [otherEq]
        exact .inr rfl
  | ok outcome =>
      rw [testEq] at tested
      obtain ⟨otherEq, below⟩ := tested
      rcases outcome with ⟨taken, under⟩
      have takenEq : frame.branches (.jump cond target) = taken := by
        simp [branches, testEq, Except.toOption]
      rw [otherEq, takenEq]
      cases taken with
      | false => exact ⟨rfl, below⟩
      | true => exact below.goto inserted member rfl

/-- Whether the next instruction of a frame takes a branch. -/
def branching (frame : Frame) : Bool :=
  frame.code[frame.pc]?.any { frame with pc := frame.pc + 1 }.branches

/-- The next instruction of the body, carried out where the insertion has moved it. -/
theorem Executes.act_next (executes : frame.Executes body) {index : Nat} {run : List Instr}
    (inserted : Splice.Inserted body index run woven) (world : World) {instr : Instr}
    (fetched : frame.code[frame.pc]? = some instr) :
    Tracks (Splice.Roomier body woven) (Action.Executes body)
      (Action.image woven extra (Splice.landing index run.length frame.branching))
      (Frame.act { frame with pc := frame.pc + 1 } world instr)
      (Frame.act
        { frame.image woven extra (Splice.relocated index run.length) with
          pc := Splice.relocated index run.length frame.pc + 1 }
        world instr) := by
  have next := executes.withPc (frame.pc + 1)
  have member : instr ∈ body.code.instrs := by
    rw [executes.code_eq] at fetched
    exact List.mem_of_getElem? (by simpa using fetched)
  have branchingEq : frame.branching = { frame with pc := frame.pc + 1 }.branches instr := by
    simp [branching, fetched]
  rw [Splice.relocated_add_one, branchingEq]
  cases target : instr.target? with
  | none =>
      have straight : Frame.branches { frame with pc := frame.pc + 1 } instr = false := by
        cases instr with
        | jump => cases target
        | _ => rfl
      rw [straight]
      exact next.act inserted.toWidens world target
  | some label =>
      cases instr with
      | jump cond target => exact next.act_jump inserted world member
      | _ => cases target

/-- Entering the woven method is entering the method, with more locals that are still empty. -/
theorem enter_image {index : Nat} {run : List Instr}
    (inserted : Splice.Inserted body index run woven) (args : List Value) :
    Mirrors (Splice.Roomier body woven) (Executes body)
      (image woven (.replicate (woven.maxLocals - body.maxLocals) .empty)
        (Splice.entrance index run.length))
      (Frame.enter body args) (Frame.enter woven args) := by
  have sameSignature : woven.signature = body.signature :=
    congrArg MethodRef.signature inserted.ref_eq
  have sameFirst : woven.firstArgSlot = body.firstArgSlot := by
    rw [Body.firstArgSlot, Body.isStatic, inserted.access_eq]
    rfl
  unfold Frame.enter
  rw [sameSignature, sameFirst, inserted.ref_eq,
    Body.labelPositions_eq_labels inserted.unique,
    Body.labelPositions_eq_labels inserted.uniqueLabels]
  dsimp only
  split
  · exact .inr rfl
  · have executes : Executes body
        ⟨body, body.code.instrs.toArray, body.labels, 0, [], .replicate body.maxLocals .empty⟩ :=
      ⟨rfl, rfl, rfl, Array.size_replicate⟩
    have started : ⟨woven, woven.code.instrs.toArray, woven.labels, 0, [],
          .replicate woven.maxLocals .empty⟩ =
        image woven (.replicate (woven.maxLocals - body.maxLocals) .empty)
          (Splice.entrance index run.length)
          ⟨body, body.code.instrs.toArray, body.labels, 0, [],
            .replicate body.maxLocals .empty⟩ := by
      simp [image, Splice.entrance, Nat.add_sub_cancel' inserted.locals_le]
    rw [started]
    exact executes.storeAll inserted.toWidens 0 args

end Frame

namespace Interpreter

variable {interpreter : Interpreter} {behaviour : Behaviour} {body woven : Body} {frame : Frame}
  {world : World} {extra : Array Slot} {index : Nat} {run : List Instr}

/-- The next instruction of the frame goes beyond the bounds that its body declares.  What a called
method answers is no such failure. -/
def Overruns (interpreter : Interpreter) (behaviour : Behaviour) (frame : Frame) (world : World) :
    Prop :=
  ∃ fault after, interpreter.step behaviour frame world = (.error fault, after) ∧
    fault.exceeds = true ∧ interpreter.answer? behaviour frame world ≠ some (.error fault, after)

/-- The other step is the image of the first: it goes on with the image of the frame, and ends with
the same result or fault, in the same world. -/
def MirrorsStep (body woven : Body) (extra : Array Slot) (place : Nat → Nat)
    (result other : Except Fault Progress × World) : Prop :=
  other = (result.1.map (Progress.image woven extra place), result.2) ∧
    ∀ progress, result.1 = .ok progress → progress.Executes body

/-- A frame that waited takes up the answer as the frame of the body does. -/
theorem resume_image {waiting : Frame} (executes : waiting.Executes body)
    (widens : Splice.Widens body woven) (place : Nat → Nat) (answer : CallResult) :
    MirrorsStep body woven extra place (resume waiting answer)
        (resume (waiting.image woven extra place) answer) ∨
      Splice.Roomier body woven ∧
        ∃ fault after, resume waiting answer = (.error fault, after) ∧ fault.exceeds = true ∧
          answer ≠ (.error fault, after) := by
  rcases answer with ⟨fault | result, after⟩
  · exact .inl ⟨rfl, by rintro _ ⟨⟩⟩
  · have pushed : Mirrors (Splice.Roomier body woven) (Frame.Executes body) (Frame.image woven extra place) _ _ :=
      executes.pushResult widens result
    simp only [resume]
    cases pushedEq : waiting.pushResult result with
    | error fault =>
        rw [pushedEq] at pushed
        rcases pushed with ⟨roomier, exceeds⟩ | otherEq
        · exact .inr ⟨roomier, fault, after, rfl, exceeds, by rintro ⟨⟩⟩
        · rw [otherEq]
          exact .inl ⟨rfl, by rintro _ ⟨⟩⟩
    | ok next =>
        rw [pushedEq] at pushed
        rw [pushed.1]
        left
        constructor
        · rfl
        · intro progress progressEq
          cases progressEq
          exact pushed.2

/-- A step comes to the image of what the step of the body comes to, if its action is mirrored. -/
theorem finish_image {place : Nat → Nat} (widens : Splice.Widens body woven)
    {result other : Except Fault Action × World}
    (acted : Tracks (Splice.Roomier body woven) (Action.Executes body) (Action.image woven extra place) result other) :
    MirrorsStep body woven extra place (interpreter.finish behaviour result)
        (interpreter.finish behaviour other) ∨
      Splice.Roomier body woven ∧
        ∃ fault after, interpreter.finish behaviour result = (.error fault, after) ∧
          fault.exceeds = true ∧
          interpreter.reply? behaviour result ≠ some (.error fault, after) := by
  rcases result with ⟨fault | action, after⟩
  · rcases acted with ⟨roomier, exceeds⟩ | rfl
    · exact .inr ⟨roomier, fault, after, rfl, exceeds, by rintro ⟨⟩⟩
    · exact .inl ⟨rfl, by rintro _ ⟨⟩⟩
  · obtain ⟨rfl, executes⟩ := acted
    have answered : ∀ (waiting : Frame) (answer : CallResult), waiting.Executes body →
        MirrorsStep body woven extra place (resume waiting answer)
            (resume (waiting.image woven extra place) answer) ∨
          Splice.Roomier body woven ∧
            ∃ fault after, resume waiting answer = (.error fault, after) ∧ fault.exceeds = true ∧
              some answer ≠ some (.error fault, after) := by
      intro waiting answer executes
      rcases resume_image executes widens place answer with
        mirrors | ⟨roomier, fault, after, resumed, exceeds, own⟩
      · exact .inl mirrors
      · exact .inr
          ⟨roomier, fault, after, resumed, exceeds, fun same => own (Option.some.inj same)⟩
    cases action with
    | leave result => exact .inl ⟨rfl, by rintro _ ⟨⟩; trivial⟩
    | proceed next => exact .inl ⟨rfl, by rintro _ ⟨⟩; exact executes⟩
    | call waiting method args => exact answered waiting _ executes
    | guarded waiting guarded args => exact answered waiting _ executes

/-- A step of the woven frame is the image of the step of the body if the instruction is mirrored,
unless the body goes beyond its own bounds and the woven body has more room. -/
theorem step_of_tracks {instr : Instr} {place : Nat → Nat} {other : Frame}
    (widens : Splice.Widens body woven) (fetched : frame.code[frame.pc]? = some instr)
    (sameInstr : other.code[other.pc]? = some instr)
    (acted : Tracks (Splice.Roomier body woven) (Action.Executes body) (Action.image woven extra place)
      (Frame.act { frame with pc := frame.pc + 1 } world.counted instr)
      (Frame.act { other with pc := other.pc + 1 } world.counted instr))
    (kept : Splice.Roomier body woven → ¬ interpreter.Overruns behaviour frame world) :
    MirrorsStep body woven extra place (interpreter.step behaviour frame world)
      (interpreter.step behaviour other world) := by
  unfold Overruns answer? at kept
  rw [step_eq fetched, fetched] at kept
  rw [step_eq fetched, step_eq sameInstr]
  by_cases exhausted : interpreter.limits.budget < world.executed + 1
  · rw [if_pos exhausted, if_pos exhausted]
    exact ⟨rfl, by rintro _ ⟨⟩⟩
  · rw [if_neg exhausted] at kept ⊢
    rw [if_neg exhausted]
    rcases finish_image widens acted with mirrors | ⟨roomier, overruns⟩
    · exact mirrors
    · exact absurd overruns (kept roomier)

/-- The woven code carries out the instruction that the body carries out, from the same stack and
locals and in the same world, unless the body goes beyond its own bounds. -/
theorem step_image (executes : frame.Executes body)
    (inserted : Splice.Inserted body index run woven)
    (kept : ¬ interpreter.Overruns behaviour frame world) :
    MirrorsStep body woven extra (Splice.landing index run.length frame.branching)
      (interpreter.step behaviour frame world)
      (interpreter.step behaviour
        (frame.image woven extra (Splice.relocated index run.length)) world) := by
  have sameInstr : (frame.image woven extra (Splice.relocated index run.length)).code[
      (frame.image woven extra (Splice.relocated index run.length)).pc]? =
        frame.code[frame.pc]? := by
    rw [executes.code_eq]
    simpa [Frame.image] using inserted.fetch_relocated frame.pc
  cases fetched : frame.code[frame.pc]? with
  | none =>
      rw [fetched] at sameInstr
      unfold step
      rw [fetched, sameInstr, executes.corrupt inserted.toWidens]
      exact ⟨rfl, by rintro _ ⟨⟩⟩
  | some instr =>
      rw [fetched] at sameInstr
      have acted : Tracks (Splice.Roomier body woven) (Action.Executes body) (Action.image woven extra _) _ _ :=
        executes.act_next inserted world.counted fetched
      exact step_of_tracks inserted.toWidens fetched sameInstr acted fun _ => kept

end Interpreter

end Weaver.Machine
