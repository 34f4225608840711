import Weaver.Proofs.Machine.Changes

/-!
# The life of an interpreter

An interpreter starts with a fresh world.  Its host calls methods and executes bodies, one after the
other and whatever came of the earlier ones, and prepares the heap in between.  Over such a life the
limits hold at every moment, inside of calls as well as between them, and every call returns.
-/

namespace Weaver.Machine

/-- The native methods of a program change the heap only in the given way. -/
def Program.Touches (program : Program) (touch : Heap → Heap → Prop) : Prop :=
  ∀ entry ∈ program.natives, ∀ method args state,
    touch state.heap (entry.2 method args state).2.heap

theorem mem_of_lookup {α β : Type} [BEq α] [LawfulBEq α] {entries : List (α × β)} {key : α}
    {value : β} (found : entries.lookup key = some value) : (key, value) ∈ entries := by
  obtain ⟨front, back, rfl, _⟩ := List.lookup_eq_some_iff.mp found
  exact List.mem_append_right front List.mem_cons_self

theorem Program.mem_natives_of_resolve? {program : Program} {method : MethodRef} {native : Native}
    (resolved : program.resolve? method = some (.native native)) :
    (MethodKey.ofRef method, native) ∈ program.natives := by
  unfold resolve? at resolved
  split at resolved
  · rename_i found lookup
    cases resolved
    exact mem_of_lookup lookup
  · cases bodyEq : program.body? method <;> rw [bodyEq] at resolved <;> cases resolved

theorem Program.Touches.resolve {program : Program} {touch : Heap → Heap → Prop}
    (natives : program.Touches touch) {method : MethodRef} {native : Native}
    (resolved : program.resolve? method = some (.native native)) (args : List Value)
    (state : NativeState) : touch state.heap (native method args state).2.heap :=
  natives _ (mem_natives_of_resolve? resolved) method args state

/-- The number of frames that a stage has open. -/
def Stage.frames : Stage → Nat
  | .entering _ _ | .running _ => 1
  | .calling _ _ | .executing _ _ | .answering _ => 0

namespace Session

/-- The number of open frames, of which all but the latest wait. -/
def frames (session : Session) : Nat := session.waiting.length + session.stage.frames

/-- The interpreter has answered its host. -/
structure Rests (session : Session) : Prop where
  waiting_eq : session.waiting = []
  answered : ∃ answer, session.stage = .answering answer

/-- An interpreter before its first call. -/
def fresh (limits : Limits) (log : Log) : Session :=
  ⟨.answering (.ok none), [], 0, .fresh limits log⟩

/-- The session in which the host has a body executed. -/
def execute (session : Session) (body : Body) (args : List Value) : Session :=
  { session with stage := .executing body args }

/-- The session in which the host calls a method. -/
def invoke (session : Session) (method : MethodRef) (args : List Value) : Session :=
  { session with stage := .calling method args }

/-- The session in which the host has changed the heap, and others have written to the log. -/
def prepare (session : Session) (heap : Heap) (log : Log) : Session :=
  { session with world := { session.world with heap, log } }

end Session

/-- A session in the life of an interpreter, with those from which it has moved on, the latest
first.  The host prepares the heap in the given way. -/
inductive Interpreter.Lives (interpreter : Interpreter) (touch : Heap → Heap → Prop) :
    List Session → Session → Prop
  | created (log : Log) : Lives interpreter touch [] (.fresh interpreter.limits log)
  | moved {past now next} (earlier : Lives interpreter touch past now)
      (moves : interpreter.Moves now next) : Lives interpreter touch (now :: past) next
  | executed {past now} (earlier : Lives interpreter touch past now) (rests : now.Rests)
      (body : Body) (args : List Value) : Lives interpreter touch past (now.execute body args)
  | invoked {past now} (earlier : Lives interpreter touch past now) (rests : now.Rests)
      (method : MethodRef) (args : List Value) :
      Lives interpreter touch past (now.invoke method args)
  | prepared {past now heap} (earlier : Lives interpreter touch past now) (rests : now.Rests)
      (touched : touch now.world.heap heap) (log : Log) :
      Lives interpreter touch past (now.prepare heap log)

namespace Session

variable {interpreter : Interpreter} {session next : Session} {world : World}

/-- The instructions that took effect when moving on from the sessions. -/
def effects (limits : Limits) (past : List Session) : List (Frame × Instr) :=
  past.filterMap (effect? limits)

/-- A move counts the instruction that takes effect, and takes none back. -/
theorem Turns.executed_le (turns : session.Turns interpreter world) :
    session.world.executed + (session.effect? interpreter.limits).toList.length ≤
      world.executed := by
  have counted (frame : Frame) (instr : Instr) :
      (session.outcome frame instr).2.executed = session.world.executed + 1 :=
    Frame.executed_act _ session.world.counted instr
  cases turns with
  | still idle | native _ idle => simp [idle]
  | refused idle => simp [idle]
  | intrinsic idle known => simp [idle, Intrinsic.executed_call? known]
  | acted effect => simp [effect, counted]
  | reported texts effect => simp [effect, counted, World.executed_allocStrings]

/-- A move changes the heap by its own methods if native methods do. -/
theorem Turns.changes (natives : interpreter.program.Touches Heap.Changes)
    (turns : session.Turns interpreter world) : session.world.heap.Changes world.heap := by
  have acts (frame : Frame) (instr : Instr) :
      session.world.heap.Changes (session.outcome frame instr).2.heap :=
    Frame.changes_act _ session.world.counted instr
  cases turns with
  | still | refused => exact .refl
  | intrinsic _ known => exact (Intrinsic.keepsFields_call? known).heap.changes
  | native args _ resolved =>
      exact natives.resolve resolved args ⟨session.world.heap, session.world.trace⟩
  | acted => exact acts _ _
  | reported texts =>
      exact (acts _ _).trans (World.keepsFields_allocStrings _ texts).heap.changes

/-- The counter tells how many frames are open, and these are not too many. -/
structure Counted (limits : Limits) (session : Session) : Prop where
  opened_eq : session.opened = session.frames
  frames_le : session.frames ≤ limits.callDepth

/-- The counter tells that all of the waiting frames are open and one more is. -/
structure Inside (limits : Limits) (session : Session) : Prop where
  opened_eq : session.opened = session.waiting.length + 1
  opened_le : session.opened ≤ limits.callDepth

namespace Inside

variable {limits : Limits}

theorem close (inside : session.Inside limits) (answer : CallResult) :
    (session.close answer).Counted limits := by
  obtain ⟨opened_eq, opened_le⟩ := inside
  have fewer : session.waiting.length ≤ limits.callDepth := by omega
  constructor
  · simp [Session.close, frames, Stage.frames, opened_eq]
  · simpa [Session.close, frames, Stage.frames] using fewer

theorem proceed (inside : session.Inside limits) (frame : Frame) (world : World) :
    (session.proceed frame world).Counted limits := by
  obtain ⟨opened_eq, opened_le⟩ := inside
  rw [opened_eq] at opened_le
  exact ⟨opened_eq, opened_le⟩

theorem wait (inside : session.Inside limits) (frame : Frame) (receipt : Receipt)
    (method : MethodRef) (args : List Value) (world : World) :
    (session.wait frame receipt method args world).Counted limits := by
  obtain ⟨opened_eq, opened_le⟩ := inside
  rw [opened_eq] at opened_le
  exact ⟨opened_eq, opened_le⟩

theorem follow (inside : session.Inside limits) (program : Program)
    (outcome : Except Fault Action × World) :
    (session.follow program outcome).Counted limits := by
  rcases outcome with ⟨fault | action, world⟩
  · exact inside.close _
  · cases action with
    | proceed frame => exact inside.proceed frame world
    | leave result => exact inside.close _
    | call frame method args => exact inside.wait frame .result method args world
    | guarded frame call args =>
        unfold Session.follow
        dsimp only
        split
        · exact inside.wait frame .result call.target args world
        · split
          · exact inside.close _
          · exact inside.wait frame _ _ _ _

theorem carryOut (inside : session.Inside interpreter.limits) (frame : Frame) :
    (session.carryOut interpreter frame).Counted interpreter.limits := by
  unfold Session.carryOut
  split
  · exact inside.close _
  · split
    · exact inside.close _
    · exact inside.follow _ _

end Inside

/-- Every move keeps count of the open frames, whether a call succeeds or fails. -/
theorem Counted.move (counted : session.Counted interpreter.limits)
    (moves : interpreter.Moves session next) : next.Counted interpreter.limits := by
  obtain ⟨opened_eq, frames_le⟩ := counted
  unfold Interpreter.Moves next? at moves
  unfold frames at opened_eq frames_le
  split at moves <;> rename_i stageEq <;> rw [stageEq] at opened_eq frames_le
  · cases moves
    unfold dispatch
    split
    · exact ⟨opened_eq, frames_le⟩
    · split
      · exact ⟨opened_eq, frames_le⟩
      · exact ⟨opened_eq, frames_le⟩
      · split <;> exact ⟨opened_eq, frames_le⟩
  · cases moves
    unfold openFrame
    split
    · exact ⟨opened_eq, frames_le⟩
    · rename_i room
      refine ⟨congrArg (· + 1) opened_eq, ?_⟩
      change session.waiting.length + 1 ≤ _
      simp only [Stage.frames] at opened_eq
      omega
  · cases moves
    have inside : session.Inside interpreter.limits := ⟨opened_eq, opened_eq ▸ frames_le⟩
    unfold enter
    split
    · exact inside.close _
    · exact inside.proceed _ _
  · cases moves
    have inside : session.Inside interpreter.limits := ⟨opened_eq, opened_eq ▸ frames_le⟩
    exact inside.carryOut _
  · unfold receive? at moves
    split at moves
    · cases moves
    · rename_i frame receipt waiting waitingEq
      have inside : Inside interpreter.limits { session with waiting } := by
        rw [waitingEq] at opened_eq frames_le
        exact ⟨opened_eq, opened_eq ▸ frames_le⟩
      dsimp only at moves
      split at moves
      · cases moves
        exact inside.close _
      · cases moves
        exact inside.proceed _ _

theorem length_effects_cons (limits : Limits) (session : Session) (past : List Session) :
    (effects limits (session :: past)).length =
      (session.effect? limits).toList.length + (effects limits past).length := by
  unfold effects
  cases effect : session.effect? limits with
  | none => simp [effect]
  | some found => simp [effect, Nat.add_comm]

/-- What holds at every moment in the life of an interpreter. -/
structure Bounded (interpreter : Interpreter) (past : List Session) (now : Session) : Prop where
  /-- No more instructions took effect than the limit allows. -/
  effects_le : (effects interpreter.limits past).length ≤ interpreter.limits.instructions
  /-- No more frames are open than the limit allows, and the counter tells how many they are. -/
  counted : now.Counted interpreter.limits
  /-- There are no more objects than the limit allows, if there is one. -/
  objects_le : 0 < interpreter.limits.heapObjects →
    now.world.heap.objects.size ≤ interpreter.limits.heapObjects
  /-- Between the calls of the host no frame is open. -/
  opened_eq_zero : now.Rests → now.opened = 0
  /-- A call at any depth returns, and leaves the frames that wait and the counter as they are. -/
  calls_return : ∀ method args, now.stage = .calling method args →
    interpreter.MovesTo now
      (now.settle
        (Interpreter.behaviour interpreter.program
          (interpreter.executeWithin (interpreter.limits.callDepth - now.opened))
          method args now.world))
  /-- The same holds of the execution of a body at any depth. -/
  executions_return : ∀ body args, now.stage = .executing body args →
    interpreter.MovesTo now
      (now.settle
        (interpreter.executeWithin (interpreter.limits.callDepth - now.opened) body args now.world))
  /-- The host gets what the interpreter answers with all of the depth. -/
  invoke_returns : now.Rests → ∀ method args,
    interpreter.MovesTo (now.invoke method args)
      (now.settle (interpreter.invoke method args now.world))
  execute_returns : now.Rests → ∀ body args,
    interpreter.MovesTo (now.execute body args)
      (now.settle (interpreter.execute body args now.world))

end Session

namespace Interpreter

variable {interpreter : Interpreter} {touch : Heap → Heap → Prop} {past : List Session}
  {now next : Session}

/-- The instructions that took effect were counted, and within the budget. -/
theorem Lives.effects_le (lives : interpreter.Lives touch past now) :
    (Session.effects interpreter.limits past).length ≤ now.world.executed ∧
      (Session.effects interpreter.limits past).length ≤ interpreter.limits.budget := by
  induction lives with
  | created log => exact ⟨Nat.le_refl _, Nat.zero_le _⟩
  | @moved past now next earlier moves ih =>
      obtain ⟨counted, within⟩ := ih
      have later := (Session.turns_of_moves moves).executed_le
      rw [Session.length_effects_cons]
      cases effect : now.effect? interpreter.limits with
      | none =>
          rw [effect] at later
          simp only [Option.toList_none, List.length_nil] at later ⊢
          omega
      | some found =>
          obtain ⟨_, budget, _⟩ := Session.effect?_eq_some_iff.mp effect
          rw [effect] at later
          simp only [Option.toList_some, List.length_singleton] at later ⊢
          omega
  | executed _ _ _ _ ih | invoked _ _ _ _ ih | prepared _ _ _ _ ih => exact ih

theorem Lives.counted (lives : interpreter.Lives touch past now) :
    now.Counted interpreter.limits := by
  have still {session : Session} (rests : session.Rests)
      (counted : session.Counted interpreter.limits) :
      session.opened = session.waiting.length ∧
        session.waiting.length ≤ interpreter.limits.callDepth := by
    obtain ⟨_, answer, answered⟩ := rests
    obtain ⟨opened_eq, frames_le⟩ := counted
    unfold Session.frames at opened_eq frames_le
    rw [answered] at opened_eq frames_le
    exact ⟨opened_eq, frames_le⟩
  induction lives with
  | created log => exact ⟨rfl, Nat.zero_le _⟩
  | moved _ moves ih => exact ih.move moves
  | executed _ rests body args ih =>
      obtain ⟨opened_eq, frames_le⟩ := still rests ih
      exact ⟨opened_eq, frames_le⟩
  | invoked _ rests method args ih =>
      obtain ⟨opened_eq, frames_le⟩ := still rests ih
      exact ⟨opened_eq, frames_le⟩
  | prepared _ _ _ _ ih => exact ⟨ih.opened_eq, ih.frames_le⟩

/-- The heap keeps its limit at every moment. -/
theorem Lives.objects_le (natives : interpreter.program.Touches Heap.Changes)
    (lives : interpreter.Lives Heap.Changes past now) :
    now.world.heap.limit = interpreter.limits.heapObjects ∧
      (0 < now.world.heap.limit → now.world.heap.objects.size ≤ now.world.heap.limit) := by
  induction lives with
  | created log => exact ⟨rfl, fun _ => Nat.zero_le _⟩
  | moved _ moves ih =>
      obtain ⟨limitEq, within⟩ := ih
      obtain ⟨sameLimit, later⟩ := ((Session.turns_of_moves moves).changes natives).bounded within
      exact ⟨sameLimit.trans limitEq, later⟩
  | executed _ _ _ _ ih | invoked _ _ _ _ ih => exact ih
  | prepared _ _ touched _ ih =>
      obtain ⟨limitEq, within⟩ := ih
      obtain ⟨sameLimit, later⟩ := touched.bounded within
      exact ⟨sameLimit.trans limitEq, later⟩

/-- Limits bound every run.  Let the native methods of a program and its host change the heap by the
methods of the heap alone, and the number of instructions be limited.  Then at every moment of the
life of the interpreter no more instructions took effect in it than that, no more frames are open
than the call depth, whose number the counter tells, and there are no more objects than their limit.
All calls return, at any depth and whether they succeed or fail, with the counter as it was before;
and so the host always gets what the interpreter answers with all of the depth. -/
theorem bounded_of_lives (natives : interpreter.program.Touches Heap.Changes)
    (limited : 0 < interpreter.limits.instructions)
    (lives : interpreter.Lives Heap.Changes past now) : now.Bounded interpreter past := by
  have counted : now.Counted interpreter.limits := lives.counted
  have atRest (rests : now.Rests) : now.opened = 0 := by
    obtain ⟨waiting_eq, answer, answered⟩ := rests
    rw [counted.opened_eq, Session.frames, waiting_eq, answered]
    rfl
  refine ⟨?_, counted, ?_, atRest, ?_, ?_, ?_, ?_⟩
  · rw [← Limits.budget_of_pos limited]
    exact lives.effects_le.2
  · obtain ⟨limitEq, within⟩ := lives.objects_le natives
    rwa [limitEq] at within
  · intro method args calling
    exact answers_behaviour interpreter now.opened now rfl method args calling
  · intro body args executing
    exact movesTo_of_executing executing rfl
  · intro rests method args
    have answers := answers_behaviour interpreter 0 (now.invoke method args) (atRest rests)
      method args rfl
    exact answers
  · intro rests body args
    have left : interpreter.limits.callDepth - (now.execute body args).opened =
        interpreter.limits.callDepth := by
      change interpreter.limits.callDepth - now.opened = _
      rw [atRest rests, Nat.sub_zero]
    have stageEq : (now.execute body args).stage = .executing body args := rfl
    exact movesTo_of_executing stageEq left

theorem Lives.exists_of_movesTo (lives : interpreter.Lives touch past now)
    (path : interpreter.MovesTo now next) : ∃ later, interpreter.Lives touch later next := by
  induction path with
  | refl => exact ⟨past, lives⟩
  | tail _ moves ih =>
      obtain ⟨later, reached⟩ := ih
      exact ⟨_, reached.moved moves⟩

/-- A native method that allocates a string. -/
def note : Native := fun _ _ state =>
  match state.heap.alloc (.string "noted") with
  | .ok (_, heap) => (.ok none, { state with heap })
  | .error fault => (.error fault, state)

/-- A method that calls the native one and then itself, without end. -/
def descend : Body :=
  { Body.ofNames "a/B" "descend" ⟨[], .void⟩ ⟨9⟩ with
    code := .ofList
      [.call .static ⟨"a/B", "note", ⟨[], .void⟩⟩, .call .static ⟨"a/B", "descend", ⟨[], .void⟩⟩,
        .ret none] }

/-- A program with these methods, of which three may be open at a time. -/
def descending : Interpreter where
  program := (Program.empty.addBody descend).addNative ⟨"a/B", "note", ⟨[], .void⟩⟩ note
  limits := ⟨100, 3, 10⟩

theorem touches_descending : descending.program.Touches Heap.Changes := by
  intro entry member method args state
  cases List.mem_singleton.mp member
  change state.heap.Changes (note method args state).2.heap
  unfold note
  split
  · rename_i allocated
    exact .single (.alloc allocated)
  · exact .refl

/-- The host calls the method, which fails when three frames are open and six instructions took
effect. -/
theorem bounded_of_lives_descending :
    descending.program.Touches Heap.Changes ∧ 0 < descending.limits.instructions ∧
      ∃ past last, descending.Lives Heap.Changes past last ∧ last.Rests ∧
        last.world.executed = 6 ∧ last.Bounded descending past := by
  let start : Session := .fresh descending.limits .empty
  have limited : 0 < descending.limits.instructions := by decide
  have lives : descending.Lives Heap.Changes [] start := .created .empty
  have rests : start.Rests := ⟨rfl, .ok none, rfl⟩
  have returns := (bounded_of_lives touches_descending limited lives).execute_returns rests descend []
  obtain ⟨past, later⟩ := (lives.executed rests descend []).exists_of_movesTo returns
  have counted : (descending.execute descend [] start.world).2.executed = 6 := by decide +kernel
  exact ⟨touches_descending, limited, past, _, later, ⟨rfl, _, rfl⟩, counted,
    bounded_of_lives touches_descending limited later⟩

end Interpreter

end Weaver.Machine
