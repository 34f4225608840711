import Weaver.Proofs.Dispatch.Emitted
import Weaver.Proofs.Dispatch.Guarded

/-!
# Executing a routine

A frame of a generated routine keeps the wrapper and the arguments in its locals and starts the code
for each listener with an empty stack.  By induction on the listeners that are left, it completes
with what `dispatch` says for them.
-/

namespace Weaver

namespace Machine

theorem Holds.take {locals : Array Slot} {index : Nat} {values : List Value}
    (holds : Holds locals index values) (count : Nat) : Holds locals index (values.take count) := by
  induction values generalizing index count with
  | nil =>
      rw [List.take_nil]
      trivial
  | cons value rest ih =>
      cases count with
      | zero => trivial
      | succ count => exact ⟨holds.1, ih holds.2 count⟩

namespace Interpreter

variable {interpreter : Interpreter} {behaviour : Behaviour} {frame : Frame} {world : World}

/-- A wrapper on the stack is asked whether it was cancelled. -/
theorem complete_of_isCancelled {other : Behaviour} (counts : Counts (withWrappers other))
    {wrapper : Wrapper} {handle : Handle} {rest : List Slot}
    (fetched : frame.code[frame.pc]? = some (.call .virtual wrapper.isCancelled))
    (stackEq : frame.stack = .value (.ref handle) :: rest)
    (room : rest.length + 1 ≤ frame.body.maxStack) :
    interpreter.complete (withWrappers other) frame world =
      (world.spend interpreter.limits 1).bind fun _ world =>
        Outcome.bind (world.heap.isCancelled (.ref handle), world) fun cancelled world =>
          interpreter.complete (withWrappers other)
            (frame.behind (.value (.ofBool cancelled) :: rest)) world := by
  have popped : Frame.popArgs { frame with pc := frame.pc + 1 } wrapper.isCancelled true =
      .ok ([.ref handle], frame.behind rest) :=
    Frame.popArgs_receiver_eq_ok rfl rfl stackEq
  rw [complete_of_call counts fetched popped rfl]
  congr 1
  funext _ world
  rw [withWrappers_isCancelled]
  cases world.heap.isCancelled (.ref handle) with
  | error fault => rfl
  | ok cancelled =>
      have pushed : (frame.behind rest).push (.ofBool cancelled) =
          .ok (frame.behind (.value (.ofBool cancelled) :: rest)) :=
        Frame.push_eq_ok_iff.mpr ⟨room, rfl⟩
      change Outcome.bind ((frame.behind rest).push (.ofBool cancelled), world) _ = _
      rw [pushed]
      rfl

/-- The check behind a call asks the wrapper and branches if it was cancelled. -/
theorem complete_of_stop {other : Behaviour} (counts : Counts (withWrappers other))
    {wrapper : Wrapper} {handle : Handle} {target : Label} {position : Nat}
    (stretch : Stretch frame.code frame.pc
      [.load .reference 0, .call .virtual wrapper.isCancelled, .jump .ifNonZero target])
    (empty : frame.stack = []) (held : frame.locals[0]? = some (.value (.ref handle)))
    (inside : 1 ≤ frame.body.maxLocals) (room : 1 ≤ frame.body.maxStack)
    (known : frame.labels.lookup target = some position) :
    interpreter.complete (withWrappers other) frame world =
      Outcome.bind (askCancelled interpreter.limits (.ref handle) world) fun cancelled world =>
        interpreter.complete (withWrappers other)
          { frame with pc := if cancelled then position else frame.pc + 3 } world := by
  have loaded : frame.loadLocal .reference 0 = .ok (.ref handle) :=
    Frame.loadLocal_eq_ok_iff.mpr ⟨inside, rfl, held⟩
  have two : world.spend interpreter.limits 2 =
      (world.spend interpreter.limits 1).bind fun _ world => world.spend interpreter.limits 1 :=
    World.spend_add _ _ 1 1
  have fetched : (frame.behind [.value (.ref handle)]).code[(frame.behind
      [.value (.ref handle)]).pc]? = some (.call .virtual wrapper.isCancelled) := stretch.tail.head
  rw [complete_of_load counts stretch.head loaded (by rw [empty]; exact room), empty,
    askCancelled, two]
  simp only [Outcome.bind_assoc]
  congr 1
  funext _ world
  change interpreter.complete _ (frame.behind [.value (.ref handle)]) world = _
  rw [complete_of_isCancelled counts fetched rfl room]
  congr 1
  funext _ world
  cases world.heap.isCancelled (.ref handle) with
  | error fault => rfl
  | ok cancelled =>
      let asked : Frame := (frame.behind [.value (.ref handle)]).behind [.value (.ofBool cancelled)]
      have jumps : asked.code[asked.pc]? = some (.jump .ifNonZero target) := stretch.tail.tail.head
      change interpreter.complete _ asked world = _
      rw [complete_of_ifNonZero counts jumps rfl known]
      simp only [Outcome.bind_ok]
      congr 1
      funext _ world
      cases cancelled with
      | false => simp [asked, Frame.behind, Value.ofBool]
      | true => simp [asked, Frame.behind, Value.ofBool]

theorem complete_of_ending (counts : Counts behaviour) {branches : Bool}
    (stretch : Stretch frame.code frame.pc (Routine.ending branches)) :
    interpreter.complete behaviour frame world = close interpreter.limits branches world := by
  unfold close
  cases branches with
  | false => exact complete_of_ret stretch.head
  | true =>
      have passes : ∀ world, Frame.act { frame with pc := frame.pc + 1 } world
          (.label Routine.done) = (.ok (.proceed (frame.behind frame.stack)), world) :=
        fun _ => rfl
      have returns : (frame.behind frame.stack).code[(frame.behind frame.stack).pc]? =
          some (.ret none) := stretch.tail.head
      have two : world.spend interpreter.limits 2 =
          (world.spend interpreter.limits 1).bind fun _ world =>
            world.spend interpreter.limits 1 := World.spend_add _ _ 1 1
      rw [complete_of_proceed counts stretch.head passes, if_pos rfl, two, Outcome.bind_assoc]
      congr 1
      funext _ world
      exact complete_of_ret returns

end Interpreter

/-- A frame of a generated routine, with the wrapper and the arguments in its locals and nothing on
its stack. -/
structure Frame.Serves (frame : Frame) (routine : Routine) (entries : List (Event × Listener))
    (values : List Value) : Prop where
  generated : routine.Generated entries frame.body
  code_eq : frame.code = (routine.instrs entries).toArray
  labels : routine.branches entries = true →
    frame.labels.lookup Routine.done = some (entries.flatMap routine.callOf).length
  stack_eq : frame.stack = []
  holds : Holds frame.locals 0 values

theorem Frame.Serves.withPc {frame : Frame} {routine : Routine} {entries : List (Event × Listener)}
    {values : List Value} (serves : frame.Serves routine entries values) (pc : Nat) :
    Frame.Serves { frame with pc } routine entries values :=
  ⟨serves.generated, serves.code_eq, serves.labels, serves.stack_eq, serves.holds⟩

namespace Interpreter

variable {interpreter : Interpreter} {execute : Body → List Value → World → CallResult}
  {routine : Routine} {entries : List (Event × Listener)} {frame : Frame} {world : World}
  {handle : Handle} {args : List Value}

/-- The kinds of the values that a listener takes. -/
theorem kinds_taken {listener : Listener} {signature : Signature} {values : List Value}
    (accepts : listener.Accepts signature)
    (kindsEq : signature.params.map Ty.kind? = values.map fun value => some value.kind) :
    (listener.taken signature).map Ty.kind? =
      (values.take (listener.taken signature).length).map fun value => some value.kind := by
  rw [List.map_take, ← kindsEq, ← List.map_take,
    ← List.prefix_iff_eq_take.mp accepts.taken_isPrefix]

theorem callOf_eq {pair : Event × Listener} (accepts : pair.2.Accepts routine.signature) :
    routine.callOf pair =
      Run.loadArgs ⟨pair.2.taken routine.signature, .void⟩ 0 ++
        .guardedCall (Routine.guardedCall pair.1 pair.2 ⟨pair.2.taken routine.signature, .void⟩) ::
        routine.stopIfCancelled := by
  rw [Routine.callOf, Listener.resolve?_eq, if_pos accepts]
  exact List.append_cons _ _ _ |>.symm

/-- A routine branches to its end if listeners may cancel and there is one that is called. -/
theorem branches_of_accepts (cancellable : routine.cancellable = true) {pair : Event × Listener}
    (member : pair ∈ entries) (accepts : pair.2.Accepts routine.signature) :
    routine.branches entries = true := by
  have resolved : (pair.2.resolve? routine.signature).isSome = true := by
    rw [Listener.resolve?_eq, if_pos accepts]
    rfl
  rw [Routine.branches, cancellable, Bool.true_and]
  exact List.any_eq_true.mpr ⟨pair, member, resolved⟩

/-- Where listeners may cancel, the routine branches to its end if one did. -/
theorem complete_of_stopIfCancelled (counts : Counts (behaviour interpreter.program execute))
    (serves : frame.Serves routine entries (.ref handle :: args))
    (kindsEq : routine.signature.params.map Ty.kind? =
      (Value.ref handle :: args).map fun value => some value.kind)
    (cancellable : routine.cancellable = true) (branches : routine.branches entries = true)
    (room : 1 ≤ frame.body.maxStack)
    (stretch : Stretch frame.code frame.pc routine.stopIfCancelled) :
    interpreter.complete (behaviour interpreter.program execute) frame world =
      Outcome.bind (askCancelled interpreter.limits (.ref handle) world) fun cancelled world =>
        interpreter.complete (behaviour interpreter.program execute)
          { frame with
            pc :=
              if cancelled then (entries.flatMap routine.callOf).length
              else frame.pc + routine.stopIfCancelled.length } world := by
  have stopEq : routine.stopIfCancelled =
      [.load .reference 0, .call .virtual routine.wrapper.isCancelled,
        .jump .ifNonZero Routine.done] := by
    rw [Routine.stopIfCancelled, if_pos cancellable]
  have inside : 1 ≤ frame.body.maxLocals := by
    rw [serves.generated.maxLocals_eq, Signature.totalSlots_eq_sum, ← sum_slots_of_kinds kindsEq,
      List.map_cons, List.sum_cons]
    exact Nat.le_add_right 1 _
  have same : withWrappers (behaviour interpreter.program execute) =
      behaviour interpreter.program execute := withWrappers_behaviour _ _
  rw [stopEq] at stretch ⊢
  rw [← same] at counts ⊢
  exact complete_of_stop counts stretch serves.stack_eq serves.holds.1 inside room
    (serves.labels branches)

/-- The code for a listener processes it, and then asks the wrapper if listeners may cancel. -/
theorem complete_of_callOf (counts : Counts (behaviour interpreter.program execute))
    (serves : frame.Serves routine entries (.ref handle :: args))
    (kindsEq : routine.signature.params.map Ty.kind? =
      (Value.ref handle :: args).map fun value => some value.kind)
    (narrow : routine.signature.totalSlots ≤ slotLimit)
    {pair : Event × Listener} (member : pair ∈ entries)
    (accepts : pair.2.Accepts routine.signature)
    (quiet : Quiet interpreter.program (behaviour interpreter.program execute)
      (pair.2.target routine.signature))
    (stretch : Stretch frame.code frame.pc (routine.callOf pair)) :
    interpreter.complete (behaviour interpreter.program execute) frame world =
      (world.spend interpreter.limits
        ((pair.2.taken routine.signature).length + 1)).bind fun _ world =>
      Outcome.bind (process interpreter.program (behaviour interpreter.program execute)
          routine.signature (.ref handle :: args) pair world) fun _ world =>
      if routine.cancellable then
        Outcome.bind (askCancelled interpreter.limits (.ref handle) world) fun cancelled world =>
          interpreter.complete (behaviour interpreter.program execute)
            { frame with
              pc :=
                if cancelled then (entries.flatMap routine.callOf).length
                else frame.pc + (routine.callOf pair).length } world
      else
        interpreter.complete (behaviour interpreter.program execute)
          { frame with pc := frame.pc + (routine.callOf pair).length } world := by
  have takes := kinds_taken accepts kindsEq
  have slotsEq := sum_slots_of_kinds takes
  have lengthEq : ((Value.ref handle :: args).take (pair.2.taken routine.signature).length).length =
      (pair.2.taken routine.signature).length := by
    simpa using (congrArg List.length takes).symm
  have loadsLength : (Run.loadArgs ⟨pair.2.taken routine.signature, .void⟩ 0).length =
      (pair.2.taken routine.signature).length :=
    (length_loadArgs 0 takes).trans lengthEq
  obtain ⟨room, roomToAsk⟩ := serves.generated.hasRoom pair member accepts
  have inside : 0 + (((Value.ref handle :: args).take
      (pair.2.taken routine.signature).length).map Value.slots).sum ≤ frame.body.maxLocals := by
    rw [slotsEq, serves.generated.maxLocals_eq, Nat.zero_add]
    exact accepts.totalSlots_le
  rw [callOf_eq accepts] at stretch
  rw [complete_of_loads counts takes (serves.holds.take _) inside
    (by rw [serves.generated.maxLocals_eq]; exact narrow)
    (by rw [slotsEq, serves.stack_eq, List.length_nil, Nat.zero_add]; exact room) stretch.left,
    lengthEq, World.spend_bind]
  congr 1
  funext _ world
  have behindLoads := stretch.right
  rw [loadsLength] at behindLoads
  rw [complete_of_guardedCall counts behindLoads.head takes rfl]
  congr 1
  funext _ world
  rw [callGuarded_eq quiet pair.1 (.ref handle :: args) world, Outcome.bind_assoc]
  congr 1
  funext _ world
  rw [callOf_eq accepts, List.length_append, List.length_cons, loadsLength]
  cases cancellable : routine.cancellable with
  | false =>
      simp [Frame.behind, Frame.pushResult, Routine.stopIfCancelled, cancellable, Nat.add_assoc]
  | true =>
      let waiting : Frame :=
        { frame with pc := frame.pc + (pair.2.taken routine.signature).length + 1 }
      have branches : routine.branches entries = true :=
        branches_of_accepts cancellable member accepts
      have serving : waiting.Serves routine entries (.ref handle :: args) := serves.withPc _
      have stops : Stretch waiting.code waiting.pc routine.stopIfCancelled := behindLoads.tail
      change interpreter.complete _ waiting world = _
      rw [complete_of_stopIfCancelled counts serving kindsEq cancellable branches
        (roomToAsk cancellable) stops, if_pos rfl]
      congr 1
      funext cancelled world
      cases cancelled <;> simp [waiting, Nat.add_assoc, Nat.add_comm 1]

/-- The code for the listeners that are left processes them one after the other. -/
theorem complete_of_calls (counts : Counts (behaviour interpreter.program execute))
    (kindsEq : routine.signature.params.map Ty.kind? =
      (Value.ref handle :: args).map fun value => some value.kind)
    (narrow : routine.signature.totalSlots ≤ slotLimit)
    (quiet : ∀ pair ∈ entries, pair.2.Accepts routine.signature →
      Quiet interpreter.program (behaviour interpreter.program execute)
        (pair.2.target routine.signature))
    {rest : List (Event × Listener)} (left : ∀ pair ∈ rest, pair ∈ entries)
    (serves : frame.Serves routine entries (.ref handle :: args))
    (stretch : Stretch frame.code frame.pc
      (rest.flatMap routine.callOf ++ Routine.ending (routine.branches entries)))
    (place : frame.pc + (rest.flatMap routine.callOf).length =
      (entries.flatMap routine.callOf).length) :
    interpreter.complete (behaviour interpreter.program execute) frame world =
      dispatch interpreter (behaviour interpreter.program execute) routine.signature
        routine.cancellable (routine.branches entries) (.ref handle) args
        (rest.filter fun pair => pair.2.Accepts routine.signature) world := by
  induction rest generalizing frame world with
  | nil => exact complete_of_ending counts stretch
  | cons pair rest ih =>
      have leftLater : ∀ other ∈ rest, other ∈ entries :=
        fun other member => left other (List.mem_cons_of_mem _ member)
      rw [List.flatMap_cons, List.append_assoc] at stretch
      rw [List.flatMap_cons, List.length_append] at place
      by_cases accepts : pair.2.Accepts routine.signature
      · have member : pair ∈ entries := left pair List.mem_cons_self
        have placeLater : frame.pc + (routine.callOf pair).length +
            (rest.flatMap routine.callOf).length = (entries.flatMap routine.callOf).length := by
          omega
        have later : ∀ world, interpreter.complete (behaviour interpreter.program execute)
            { frame with pc := frame.pc + (routine.callOf pair).length } world = _ :=
          fun world => ih leftLater (serves.withPc _) stretch.right placeLater
        have ends : Stretch frame.code (entries.flatMap routine.callOf).length
            (Routine.ending (routine.branches entries)) := by
          have whole := stretch.right.right
          rwa [placeLater] at whole
        rw [complete_of_callOf counts serves kindsEq narrow member accepts
          (quiet pair member accepts) stretch.left,
          List.filter_cons_of_pos (by simpa using accepts)]
        unfold dispatch
        congr 1
        funext _ world
        congr 1
        funext _ world
        rw [later]
        split
        · congr 1
          funext cancelled world
          cases cancelled with
          | false => exact later world
          | true => exact complete_of_ending counts ends
        · rfl
      · have absent : routine.callOf pair = [] := by
          rw [Routine.callOf, Listener.resolve?_eq, if_neg accepts]
        rw [absent] at stretch place
        rw [List.filter_cons_of_neg (by simpa using accepts)]
        exact ih leftLater serves stretch (by simpa using place)

end Interpreter

end Machine

end Weaver
