import Weaver.Proofs.Machine.Closure

/-!
# Soundness of the heap

A session is closed if all values that it holds, in its world, in its frames and on the way between
them, denote objects.  If native methods keep to such values then every move of a closed session
leads to another one.  On the way objects are neither lost nor do they change their class, and a
wrapper is cancelled for good, at a moment when it may be.  So no reference ever dangles.
-/

namespace Weaver.Machine

open HeapObject Heap

namespace Intrinsic

variable {method : MethodRef} {args : List Value} {world : World} {answer : CallResult}

theorem leads_change (sound : world.Closed) (receiver : Value)
    {update : WrapperState → Except Fault WrapperState}
    (updates : ∀ state, Delivers (fun changed =>
      (HeapObject.wrapper state).Becomes (.wrapper changed) ∧
        ∀ value ∈ (HeapObject.wrapper changed).values,
          value ∈ (HeapObject.wrapper state).values ∨ world.heap.Denotes value) (update state)) :
    world.Leads Becomes Yields (change world receiver update) := by
  have modified := delivers_modifyWrapper Becomes.refl sound.heap receiver updates
  unfold change
  split
  · rename_i fault failed
    rw [failed] at modified
    exact ⟨sound, .refl Becomes.refl _, modified⟩
  · rename_i heap succeeds
    rw [succeeds] at modified
    exact ⟨sound.withHeap modified.1 modified.2, modified.2, nofun⟩

theorem leads_ask (sound : world.Closed) (receiver : Value)
    {question : WrapperState → Except Fault Value}
    (answers : ∀ state, (∀ value ∈ (HeapObject.wrapper state).values, world.heap.Denotes value) →
      Delivers world.heap.Denotes (question state)) :
    world.Leads Becomes Yields (ask world receiver question) := by
  have found := world.heap.delivers_wrapper receiver
  unfold ask
  split
  · rename_i fault failed
    rw [failed] at found
    exact ⟨sound, .refl Becomes.refl _, found⟩
  · rename_i handle state succeeds
    rw [succeeds] at found
    refine ⟨sound, .refl Becomes.refl _, ?_⟩
    refine (answers state (sound.heap handle _ found)).map ?_
    rintro value denotes other ⟨⟩
    exact denotes

theorem delivers_returnValue {heap : Heap} {stored : Option Value} (known : heap.Yields stored)
    (method : MethodRef) : Delivers heap.Denotes (returnValue method stored) := by
  unfold returnValue
  split
  · rfl
  · exact denotes_zero heap _
  · split
    · exact known _ rfl
    · rfl

/-- Intrinsic methods store and return values that denote objects if they get such arguments. -/
theorem leads_call? (sound : world.Closed) (known : ∀ value ∈ args, world.heap.Denotes value)
    (called : call? method args world = some answer) : world.Leads Becomes Yields answer := by
  cases reacts_of_call? called with
  | @constructs receiver name source cancellable argsEq =>
      refine leads_change sound receiver fun state => ⟨.of_eq rfl rfl, fun value member => ?_⟩
      rcases List.mem_cons.mp member with given | stored
      · refine .inr (given ▸ known source ?_)
        simp [argsEq]
      · exact .inl (List.mem_cons_of_mem _ stored)
  | cancels receiver =>
      refine leads_change sound receiver fun state => ?_
      cases cancels : state.cancel with
      | error fault =>
          unfold WrapperState.cancel at cancels
          split at cancels <;> cases cancels
          rfl
      | ok changed =>
          exact ⟨(WrapperState.persists_of_cancel cancels).toBecomes, fun value member =>
            .inl (WrapperState.mem_of_cancel cancels value member)⟩
  | @stores receiver result argsEq =>
      refine leads_change sound receiver fun state => ⟨.of_eq rfl rfl, fun value member => ?_⟩
      rcases List.mem_cons.mp member with rfl | stored
      · exact .inl List.mem_cons_self
      · cases List.mem_singleton.mp stored
        refine .inr (known result ?_)
        simp [argsEq]
  | tellsCancelled receiver => exact leads_ask sound receiver fun _ _ => denotes_of_handle? rfl
  | tellsStored receiver =>
      refine leads_ask sound receiver fun state held => ?_
      refine delivers_returnValue (fun value stored => held value ?_) method
      exact List.mem_cons_of_mem _ (Option.mem_toList.mpr stored)
  | reports missing =>
      exact ⟨⟨sound.heap, sound.statics⟩, .refl Becomes.refl _, nofun⟩

end Intrinsic

theorem Heap.Yields.take {heap : Heap} {result : Option Value} (yields : heap.Yields result)
    (receipt : Receipt) : heap.Yields (receipt.take result) := by
  cases receipt with
  | result => exact yields
  | zeroOf type =>
      intro value taken
      obtain ⟨kind, _, rfl⟩ := Option.map_eq_some_iff.mp taken
      exact denotes_zero heap kind

/-- The native methods of a program pass on and store only what denotes objects, and touch the
objects on the heap only when they allocate or cancel one. -/
def Program.Faithful (program : Program) : Prop :=
  ∀ entry ∈ program.natives, ∀ method args state, state.heap.Closed →
    (∀ value ∈ args, state.heap.Denotes value) →
    state.heap.Touches (entry.2 method args state).2.heap ∧
      ∀ result, (entry.2 method args state).1 = .ok result →
        (entry.2 method args state).2.heap.Yields result

namespace Stage

/-- The values that a stage holds denote objects. -/
def Closed (heap : Heap) : Stage → Prop
  | .calling _ args | .executing _ args | .entering _ args => ∀ value ∈ args, heap.Denotes value
  | .running frame => frame.Closed heap
  | .answering answer => ∀ result, answer = .ok result → heap.Yields result

/-- Whether the answer is that a reference dangles. -/
def dangles : Stage → Bool
  | .answering (.error fault) => fault.isDangling
  | .answering (.ok _) | .calling _ _ | .executing _ _ | .entering _ _ | .running _ => false

theorem dangles_answering_iff {answer : Except Fault (Option Value)} :
    (Stage.answering answer).dangles = true ↔
      ∃ handle, answer = .error (.danglingReference handle) := by
  cases answer with
  | ok result => simp [dangles]
  | error fault => cases fault <;> simp [dangles, Fault.isDangling]

end Stage

namespace Session

variable {interpreter : Interpreter} {program : Program} {session next : Session}

/-- All values that a session holds denote objects. -/
structure Closed (session : Session) : Prop where
  world : session.world.Closed
  stage : session.stage.Closed session.world.heap
  waiting : ∀ entry ∈ session.waiting, entry.1.Closed session.world.heap

/-- A native method is called which claims that a reference dangles. -/
def Claims (program : Program) (session : Session) : Prop :=
  ∃ method args native handle, session.stage = .calling method args ∧
    program.resolve? method = some (.native native) ∧
    (native method args ⟨session.world.heap, session.world.trace⟩).1 =
      .error (.danglingReference handle)

/-- What a move does to a closed session: it leads to another one, all objects are there, and if a
reference is said to dangle then it was before, or a native method claims it. -/
structure LeadsTo (program : Program) (session next : Session) : Prop where
  closed : next.Closed
  across : session.world.heap.Across Becomes next.world.heap
  dangles : next.stage.dangles = true → session.stage.dangles = true ∨ session.Claims program

namespace Closed

/-- A call is answered, with the open frame closed or not. -/
theorem answer (closed : session.Closed) {answer : CallResult}
    (leads : session.world.Leads Becomes Yields answer)
    (stageEq : next.stage = .answering answer.1) (waitingEq : next.waiting = session.waiting)
    (worldEq : next.world = answer.2) : session.LeadsTo program next := by
  obtain ⟨worldClosed, across, delivers⟩ := leads
  rw [← worldEq] at worldClosed across delivers
  refine ⟨⟨worldClosed, ?_, ?_⟩, across, ?_⟩
  · rw [stageEq]
    intro result answered
    rw [answered] at delivers
    exact delivers
  · rw [waitingEq]
    exact fun entry member => (closed.waiting entry member).mono across
  · rw [stageEq]
    intro dangles
    cases failed : answer.1 with
    | ok result =>
        rw [failed] at dangles
        cases dangles
    | error fault =>
        rw [failed] at dangles delivers
        exact nomatch delivers.symm.trans dangles

theorem settle (closed : session.Closed) {answer : CallResult}
    (leads : session.world.Leads Becomes Yields answer) :
    session.LeadsTo program (session.settle answer) :=
  closed.answer leads rfl rfl rfl

theorem close (closed : session.Closed) {answer : CallResult}
    (leads : session.world.Leads Becomes Yields answer) :
    session.LeadsTo program (session.close answer) :=
  closed.answer leads rfl rfl rfl

theorem fail (closed : session.Closed) {fault : Fault} (other : fault.isDangling = false) :
    session.LeadsTo program (session.close (.error fault, session.world)) :=
  closed.close ⟨closed.world, .refl Becomes.refl _, other⟩

theorem proceed (closed : session.Closed) {frame : Frame} {world : World}
    (worldClosed : world.Closed) (across : session.world.heap.Across Persists world.heap)
    (frameClosed : frame.Closed world.heap) :
    session.LeadsTo program (session.proceed frame world) where
  closed := by
    refine ⟨worldClosed, frameClosed, fun entry member => ?_⟩
    exact (closed.waiting entry member).mono across
  across := across.mono Persists.toBecomes
  dangles := nofun

theorem wait (closed : session.Closed) {frame : Frame} (receipt : Receipt) (method : MethodRef)
    {args : List Value} {world : World} (worldClosed : world.Closed)
    (across : session.world.heap.Across Persists world.heap)
    (frameClosed : frame.Closed world.heap) (known : ∀ value ∈ args, world.heap.Denotes value) :
    session.LeadsTo program (session.wait frame receipt method args world) where
  closed := by
    refine ⟨worldClosed, known, fun entry member => ?_⟩
    rcases List.mem_cons.mp member with rfl | older
    · exact frameClosed
    · exact (closed.waiting entry older).mono across
  across := across.mono Persists.toBecomes
  dangles := nofun

/-- What an instruction asks for is done with values that denote objects. -/
theorem follow (closed : session.Closed) {outcome : Except Fault Action × World}
    (leads : session.world.Leads Persists Action.Closed outcome) :
    session.LeadsTo program (session.follow program outcome) := by
  obtain ⟨worldClosed, across, delivers⟩ := leads
  have becomes := across.mono Persists.toBecomes
  rcases outcome with ⟨fault | action, after⟩
  · exact closed.close ⟨worldClosed, becomes, delivers⟩
  · cases action with
    | proceed frame => exact closed.proceed worldClosed across delivers
    | leave result => exact closed.close ⟨worldClosed, becomes, delivers⟩
    | call frame method args =>
        exact closed.wait .result method worldClosed across delivers.1 delivers.2
    | guarded frame call args =>
        unfold Session.follow
        dsimp only
        split
        · exact closed.wait .result call.target worldClosed across delivers.1 delivers.2
        · have afterClosed : after.Closed := worldClosed
          have allocated := afterClosed.allocStrings
            [call.context, call.target.owner, call.target.name]
          have later : session.world.heap.Across Persists _ :=
            across.trans Persists.trans allocated.across
          split
          · rename_i fault last failed
            rw [failed] at allocated later
            exact closed.close ⟨allocated.closed, later.mono Persists.toBecomes, allocated.delivers⟩
          · rename_i report last succeeds
            rw [succeeds] at allocated later
            exact closed.wait _ _ allocated.closed later
              (delivers.1.mono allocated.across) allocated.delivers

theorem leads_outcome (closed : session.Closed) {frame : Frame}
    (frameClosed : frame.Closed session.world.heap) (instr : Instr) :
    session.world.Leads Persists Action.Closed (session.outcome frame instr) := by
  have counted : session.world.counted.Closed := ⟨closed.world.heap, closed.world.statics⟩
  have inside : Frame.Closed session.world.counted.heap { frame with pc := frame.pc + 1 } :=
    frameClosed
  obtain ⟨worldClosed, across, delivers⟩ := inside.leads_act counted instr
  exact ⟨worldClosed, across, delivers⟩

theorem carryOut (closed : session.Closed) {frame : Frame}
    (frameClosed : frame.Closed session.world.heap) :
    session.LeadsTo interpreter.program (session.carryOut interpreter frame) := by
  cases fetched : frame.code[frame.pc]? with
  | none =>
      simp only [Session.carryOut, fetched]
      exact closed.fail rfl
  | some instr =>
      rw [carryOut_eq fetched]
      split
      · exact closed.close
          ⟨⟨closed.world.heap, closed.world.statics⟩, .refl Becomes.refl _, rfl⟩
      · exact closed.follow (closed.leads_outcome frameClosed instr)

/-- A native method is called with values that denote objects. -/
theorem native (closed : session.Closed) (natives : program.Faithful) {method : MethodRef}
    {args : List Value} {native : Native} {answer : Except Fault (Option Value)}
    {state : NativeState} (calling : session.stage = .calling method args)
    (resolved : program.resolve? method = some (.native native))
    (called : native method args ⟨session.world.heap, session.world.trace⟩ = (answer, state)) :
    session.LeadsTo program
      (session.settle
        (answer, { session.world with heap := state.heap, trace := state.trace })) := by
  have known := closed.stage
  rw [calling] at known
  have faithful := natives _ (Program.mem_natives_of_resolve? resolved) method args
    ⟨session.world.heap, session.world.trace⟩ closed.world.heap known
  dsimp only at faithful
  rw [called] at faithful
  obtain ⟨touches, yields⟩ := faithful
  have across := touches.across
  have heapClosed := touches.closed closed.world.heap
  refine ⟨⟨⟨heapClosed, fun entry member => ?_⟩, yields, fun entry member => ?_⟩,
    across.mono Persists.toBecomes, fun dangles => .inr ?_⟩
  · exact across.denotes (closed.world.statics entry member)
  · exact (closed.waiting entry member).mono across
  · obtain ⟨handle, rfl⟩ := Stage.dangles_answering_iff.mp dangles
    exact ⟨method, args, native, handle, calling, resolved, congrArg Prod.fst called⟩

theorem dispatch (closed : session.Closed) (natives : program.Faithful) {method : MethodRef}
    {args : List Value} (calling : session.stage = .calling method args) :
    session.LeadsTo program (session.dispatch program method args) := by
  have known := closed.stage
  rw [calling] at known
  unfold Session.dispatch
  split
  · rename_i answer called
    exact closed.settle (Intrinsic.leads_call? closed.world known called)
  · split
    · exact ⟨⟨closed.world, known, closed.waiting⟩, .refl Becomes.refl _, nofun⟩
    · rename_i native resolved
      exact closed.native natives calling resolved rfl
    · split
      · exact closed.settle ⟨closed.world, .refl Becomes.refl _, nofun⟩
      · exact closed.settle ⟨closed.world, .refl Becomes.refl _, rfl⟩

theorem enter (closed : session.Closed) (body : Body) {args : List Value}
    (known : ∀ value ∈ args, session.world.heap.Denotes value) :
    session.LeadsTo program (session.enter body args) := by
  have entered := Frame.closed_enter body known
  unfold Session.enter
  split
  · rename_i fault failed
    rw [failed] at entered
    exact closed.fail entered
  · rename_i frame succeeds
    rw [succeeds] at entered
    exact closed.proceed closed.world (.refl Persists.refl _) entered

theorem openFrame (closed : session.Closed) (limits : Limits) (body : Body) {args : List Value}
    (known : ∀ value ∈ args, session.world.heap.Denotes value) :
    session.LeadsTo program (session.openFrame limits body args) := by
  unfold Session.openFrame
  split
  · exact closed.settle ⟨closed.world, .refl Becomes.refl _, rfl⟩
  · exact ⟨⟨closed.world, known, closed.waiting⟩, .refl Becomes.refl _, nofun⟩

/-- A frame goes on with an answer, or passes on the fault that it is. -/
theorem receive (closed : session.Closed) {answer : Except Fault (Option Value)}
    (answering : session.stage = .answering answer)
    (received : session.receive? answer = some next) : session.LeadsTo program next := by
  have yields := closed.stage
  rw [answering] at yields
  unfold Session.receive? at received
  split at received
  · cases received
  · rename_i frame receipt waiting waitingEq
    have rest : Closed { session with waiting } := by
      refine ⟨closed.world, closed.stage, fun entry member => closed.waiting entry ?_⟩
      rw [waitingEq]
      exact List.mem_cons_of_mem _ member
    have frameClosed : frame.Closed session.world.heap := by
      refine closed.waiting (frame, receipt) ?_
      rw [waitingEq]
      exact List.mem_cons_self
    cases answer with
    | error fault =>
        cases received
        refine ⟨⟨closed.world, nofun, rest.waiting⟩, .refl Becomes.refl _, fun dangles => .inl ?_⟩
        rw [answering]
        exact dangles
    | ok result =>
        have pushed := frameClosed.pushResult ((yields result rfl).take receipt)
        simp only [bind, Except.bind] at received
        split at received
        · rename_i fault failed
          rw [failed] at pushed
          cases received
          have leads : LeadsTo program { session with waiting } _ := rest.fail pushed
          exact ⟨leads.closed, leads.across, leads.dangles⟩
        · rename_i other succeeds
          rw [succeeds] at pushed
          cases received
          have leads : LeadsTo program { session with waiting } _ :=
            rest.proceed closed.world (.refl Persists.refl _) pushed
          exact ⟨leads.closed, leads.across, leads.dangles⟩

/-- Every move of a closed session leads to another one. -/
theorem move (closed : session.Closed) (natives : interpreter.program.Faithful)
    (moves : interpreter.Moves session next) : session.LeadsTo interpreter.program next := by
  have known := closed.stage
  unfold Interpreter.Moves next? at moves
  split at moves <;> rename_i stageEq <;> rw [stageEq] at known
  · cases moves
    exact closed.dispatch natives stageEq
  · cases moves
    exact closed.openFrame _ _ known
  · cases moves
    exact closed.enter _ known
  · cases moves
    exact closed.carryOut known
  · exact closed.receive stageEq moves

end Closed

/-- What holds of a session that an interpreter reaches from a closed one. -/
structure Sound (interpreter : Interpreter) (start now : Session) : Prop where
  /-- All values denote objects: those on operand stacks, in locals, in static fields, in fields of
  instances and in wrappers, and all arguments and results. -/
  closed : now.Closed
  /-- All objects of the start are there and have the same class, and the wrappers that were
  cancelled still are. -/
  outlasts : start.world.heap.Across Outlasts now.world.heap
  /-- The next move cancels a wrapper only while it may be cancelled. -/
  becomes : ∀ next, interpreter.Moves now next → now.world.heap.Across Becomes next.world.heap
  /-- A native method may touch the heap more than once in that move, and each time this holds. -/
  touches : ∀ middle later, now.world.heap.Touches middle → middle.Touch later →
    later.Closed ∧ middle.Across Becomes later
  /-- The next instruction does not fail for a reference that dangles. -/
  instructions : ∀ frame instr, now.effect? interpreter.limits = some (frame, instr) →
    ∀ handle, (now.outcome frame instr).1 ≠ .error (.danglingReference handle)
  /-- Nor does the interpreter give that answer, as long as no native method claims it. -/
  answers : start.stage.dangles = false →
    (∀ earlier, interpreter.MovesTo start earlier → ¬ earlier.Claims interpreter.program) →
    ∀ handle, now.stage ≠ .answering (.error (.danglingReference handle))
  /-- What the recursive interpreter comes to is one of the sessions that are reached. -/
  calls_return : ∀ method args, now.stage = .calling method args →
    interpreter.MovesTo now
      (now.settle
        (Interpreter.behaviour interpreter.program
          (interpreter.executeWithin (interpreter.limits.callDepth - now.opened))
          method args now.world))
  executions_return : ∀ body args, now.stage = .executing body args →
    interpreter.MovesTo now
      (now.settle
        (interpreter.executeWithin (interpreter.limits.callDepth - now.opened) body args now.world))

end Session

namespace Interpreter

variable {interpreter : Interpreter} {start now : Session}

/-- All that a closed session moves to is closed, and its objects outlast the moves. -/
theorem MovesTo.closed (natives : interpreter.program.Faithful) (closed : start.Closed)
    (path : interpreter.MovesTo start now) :
    now.Closed ∧ start.world.heap.Across Outlasts now.world.heap := by
  induction path with
  | refl => exact ⟨closed, .refl Outlasts.refl _⟩
  | tail _ moves ih =>
      obtain ⟨nextClosed, across, _⟩ := ih.1.move natives moves
      exact ⟨nextClosed, ih.2.trans Outlasts.trans (across.mono Becomes.toOutlasts)⟩

/-- If a reference is said to dangle then it was from the start, or a native method has claimed
it. -/
theorem MovesTo.claims_of_dangles (natives : interpreter.program.Faithful) (closed : start.Closed)
    (path : interpreter.MovesTo start now) (dangles : now.stage.dangles = true) :
    start.stage.dangles = true ∨
      ∃ earlier, interpreter.MovesTo start earlier ∧ earlier.Claims interpreter.program := by
  induction path with
  | refl => exact .inl dangles
  | tail earlier moves ih =>
      have leads := (MovesTo.closed natives closed earlier).1.move natives moves
      rcases leads.dangles dangles with before | claims
      · exact ih before
      · exact .inr ⟨_, earlier, claims⟩

/-- No instruction of a closed session fails for a reference that dangles. -/
theorem outcome_ne_dangling (closed : now.Closed) {frame : Frame} {instr : Instr}
    (effect : now.effect? interpreter.limits = some (frame, instr)) (handle : Handle) :
    (now.outcome frame instr).1 ≠ .error (.danglingReference handle) := by
  intro failed
  obtain ⟨running, _, _⟩ := Session.effect?_eq_some_iff.mp effect
  have frameClosed := closed.stage
  rw [running] at frameClosed
  have delivers := (closed.leads_outcome frameClosed instr).delivers
  rw [failed] at delivers
  cases delivers

/-- The heap is sound.  Let the native methods of a program pass on and store only values that
denote objects and touch the heap only when they allocate or cancel an object, and let an interpreter
start where all values denote objects.  Then all values do at every moment of the execution, in all
frames and everywhere in the world; objects stay and keep their classes, wrappers that were cancelled
stay so, and others are cancelled only while their flag allows it.  No reference ever dangles. -/
theorem sound_of_movesTo (natives : interpreter.program.Faithful) (closed : start.Closed)
    (path : interpreter.MovesTo start now) : start.Sound interpreter now := by
  obtain ⟨nowClosed, outlasts⟩ := MovesTo.closed natives closed path
  constructor
  case closed => exact nowClosed
  case outlasts => exact outlasts
  case becomes => exact fun next moves => (nowClosed.move natives moves).across
  case touches =>
    intro middle later touched touch
    exact ⟨touch.closed (touched.closed nowClosed.world.heap), touch.across.mono Persists.toBecomes⟩
  case instructions => exact fun frame instr effect => outcome_ne_dangling nowClosed effect
  case answers =>
    intro fresh honest handle answered
    have dangles : now.stage.dangles = true := by
      rw [answered]
      rfl
    rcases MovesTo.claims_of_dangles natives closed path dangles with before | claims
    · exact nomatch fresh.symm.trans before
    · obtain ⟨earlier, reached, claims⟩ := claims
      exact honest earlier reached claims
  case calls_return =>
    intro method args calling
    exact answers_behaviour interpreter now.opened now rfl method args calling
  case executions_return =>
    intro body args executing
    exact movesTo_of_executing executing rfl

/-- A native method that cancels a wrapper with a new string, which it passes on. -/
def refuse : Native := fun _ args state =>
  match state.heap.alloc (.string "refused") with
  | .error fault => (.error fault, state)
  | .ok (text, heap) =>
      match heap.cancelWith (args.headD .null) text with
      | .error fault => (.error fault, { state with heap })
      | .ok heap => (.ok (some text), { state with heap })

/-- A method that constructs a wrapper, has the native method cancel it, and casts what it gets. -/
def refusal : Body :=
  { Body.ofNames "a/B" "refusal" ⟨[], .ofClass Ty.stringClass⟩ ⟨9⟩ with
    code := .ofList
      [.new (Wrapper.className .returning), .dup, .const (.string "refusal"), .const .null,
        .const (.int 1), .call .special (Wrapper.constructor .returning),
        .call .static ⟨"a/B", "refuse", ⟨[.ofClass Ty.objectClass], .ofClass Ty.objectClass⟩⟩,
        .checkCast Ty.stringClass, .ret (some .reference)]
    maxStack := 5 }

/-- A program with these methods. -/
def refusing : Interpreter where
  program := (Program.empty.addBody refusal).addNative
    ⟨"a/B", "refuse", ⟨[.ofClass Ty.objectClass], .ofClass Ty.objectClass⟩⟩ refuse
  limits := .standard

theorem faithful_refusing : refusing.program.Faithful := by
  intro entry member method args state closed known
  cases List.mem_singleton.mp member
  change state.heap.Touches (refuse method args state).2.heap ∧
    ∀ result, (refuse method args state).1 = .ok result →
      (refuse method args state).2.heap.Yields result
  unfold refuse
  split
  · exact ⟨.refl, nofun⟩
  · rename_i text heap allocated
    have first : state.heap.Touches heap := .single (.alloc allocated (List.forall_mem_nil _))
    have denotes : heap.Denotes text := denotes_alloc allocated
    split
    · exact ⟨first, nofun⟩
    · rename_i last cancelled
      have second : heap.Touch last := .cancelWith cancelled denotes
      refine ⟨first.tail second, ?_⟩
      rintro result ⟨⟩ value ⟨⟩
      exact second.across.denotes denotes

/-- The method gets the string for which the wrapper was cancelled. -/
theorem sound_of_movesTo_refusing :
    refusing.program.Faithful ∧
      ∃ start last : Session, start.Closed ∧ refusing.MovesTo start last ∧
        last.stage = .answering (.ok (some (.ref ⟨2⟩))) ∧
        (last.world.heap.wrappers.map fun state => (state.cancelled, state.returnValue)) =
          [(true, some (.ref ⟨2⟩))] ∧
        start.Sound refusing last := by
  let start : Session := (Session.fresh refusing.limits .empty).execute refusal []
  have closed : start.Closed := by
    refine ⟨⟨fun handle object held => ?_, List.forall_mem_nil _⟩, List.forall_mem_nil _,
      List.forall_mem_nil _⟩
    cases held
  have path : refusing.MovesTo start
      (start.settle (refusing.execute refusal [] start.world)) := movesTo_of_executing rfl rfl
  have returned : (refusing.execute refusal [] (.fresh refusing.limits .empty)).1 =
      .ok (some (.ref ⟨2⟩)) := by decide +kernel
  have cancelled :
      (refusing.execute refusal [] (.fresh refusing.limits .empty)).2.heap.wrappers.map
        (fun state => (state.cancelled, state.returnValue)) = [(true, some (.ref ⟨2⟩))] := by
    decide +kernel
  exact ⟨faithful_refusing, start, _, closed, path, congrArg Stage.answering returned, cancelled,
    sound_of_movesTo faithful_refusing closed path⟩

end Interpreter

end Weaver.Machine
