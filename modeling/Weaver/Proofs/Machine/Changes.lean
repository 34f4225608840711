import Weaver.Proofs.Machine.Session

/-!
# What a move changes

A heap changes by its own methods alone: an allocation, or another state in the place of that of an
object.  Most of these changes leave the fields of all instances as they are.  A move of a session
changes the world in one of a few ways, most of which have no instruction to them.
-/

namespace Weaver.Machine

theorem map_eq_ok_iff {α β : Type} {result : Except Fault α} {next : α → β} {value : β} :
    result.map next = .ok value ↔ ∃ first, result = .ok first ∧ next first = value := by
  cases result <;> simp [Except.map]

/-- The fields of an object; only instances have any. -/
def HeapObject.fields : HeapObject → Fields String
  | .plain _ fields => fields
  | .string _ | .wrapper _ => []

theorem HeapObject.fields_ofClass (name : String) : (HeapObject.ofClass name).fields = [] := by
  unfold ofClass
  split <;> rfl

namespace Heap

/-- A change of a heap by one of its own methods. -/
inductive Change : Heap → Heap → Prop
  | alloc {heap next object value} (allocated : heap.alloc object = .ok (value, next)) :
      Change heap next
  | put (heap handle object) : Change heap (heap.put handle object)

/-- A change of a heap by one of its own methods that is not about fields. -/
inductive Fieldless : Heap → Heap → Prop
  | alloc {heap next object value} (blank : object.fields = [])
      (allocated : heap.alloc object = .ok (value, next)) : Fieldless heap next
  | put {heap handle old} (new : WrapperState) (held : heap.get? handle = some (.wrapper old)) :
      Fieldless heap (heap.put handle (.wrapper new))

/-- Any number of changes of a heap by its own methods. -/
def Changes : Heap → Heap → Prop := Relation.ReflTransGen Change

/-- Any number of changes of a heap that are not about fields. -/
def KeepsFields : Heap → Heap → Prop := Relation.ReflTransGen Fieldless

theorem KeepsFields.changes {before after : Heap} (keeps : KeepsFields before after) :
    Changes before after := by
  refine Relation.ReflTransGen.mono (fun first second step => ?_) _ _ keeps
  cases step with
  | alloc blank allocated => exact .alloc allocated
  | put new held => exact .put _ _ _

/-- Changes keep the limit of a heap, and do not go beyond it. -/
theorem Changes.bounded {before after : Heap} (changes : Changes before after)
    (bounded : 0 < before.limit → before.objects.size ≤ before.limit) :
    after.limit = before.limit ∧ (0 < after.limit → after.objects.size ≤ after.limit) := by
  induction changes with
  | refl => exact ⟨rfl, bounded⟩
  | @tail middle last _ step ih =>
      obtain ⟨limitEq, within⟩ := ih
      rw [← limitEq]
      cases step with
      | @alloc _ object value allocated =>
          unfold alloc at allocated
          split at allocated
          · cases allocated
          · rename_i free
            split at allocated
            · cases allocated
            · cases allocated
              refine ⟨rfl, fun positive => ?_⟩
              have below : middle.objects.size < middle.limit := by
                by_contra full
                exact free ⟨positive, Nat.not_lt.mp full⟩
              rw [Array.size_push]
              exact below
      | put handle object =>
          refine ⟨rfl, fun positive => ?_⟩
          rw [put, Array.size_setIfInBounds]
          exact within positive

section wrapper

variable {heap next : Heap} {receiver : Value}

theorem wrapper_eq_ok_iff {handle : Handle} {state : WrapperState} :
    heap.wrapper receiver = .ok (handle, state) ↔
      receiver = .ref handle ∧ heap.get? handle = some (.wrapper state) := by
  constructor
  · intro found
    unfold wrapper at found
    split at found
    · split at found
      · rename_i held
        cases found
        exact ⟨rfl, held⟩
      · cases found
    · cases found
  · rintro ⟨rfl, held⟩
    simp only [wrapper, held]

/-- The state of a wrapper is changed by a change that succeeds on it. -/
theorem modifyWrapper_eq_ok_iff {change : WrapperState → Except Fault WrapperState} :
    heap.modifyWrapper receiver change = .ok next ↔
      ∃ handle state changed, heap.wrapper receiver = .ok (handle, state) ∧
        change state = .ok changed ∧ next = heap.put handle (.wrapper changed) := by
  unfold modifyWrapper
  cases found : heap.wrapper receiver with
  | error fault => simp
  | ok entry =>
      obtain ⟨handle, state⟩ := entry
      dsimp only
      cases changed : change state with
      | error fault => simp [changed, Except.map]
      | ok later => simp [changed, Except.map, eq_comm]

theorem keepsFields_of_modifyWrapper {change : WrapperState → Except Fault WrapperState}
    (modified : heap.modifyWrapper receiver change = .ok next) : KeepsFields heap next := by
  obtain ⟨handle, state, changed, found, _, rfl⟩ := modifyWrapper_eq_ok_iff.mp modified
  exact .single (.put changed (wrapper_eq_ok_iff.mp found).2)

end wrapper

end Heap

namespace World

theorem alloc_cases (world : World) (object : HeapObject) :
    (∃ fault, world.alloc object = (.error fault, world)) ∨
      ∃ value heap, world.heap.alloc object = .ok (value, heap) ∧
        world.alloc object = (.ok value, { world with heap }) := by
  unfold alloc
  cases world with
  | mk heap statics trace log executed =>
      dsimp only
      cases allocated : heap.alloc object with
      | error fault => exact .inl ⟨fault, rfl⟩
      | ok outcome => exact .inr ⟨outcome.1, outcome.2, rfl, rfl⟩

end World

/-- The world has the static fields and the heap of another one, but for changes that are not about
fields. -/
structure World.KeepsFields (before after : World) : Prop where
  statics_eq : after.statics = before.statics
  heap : before.heap.KeepsFields after.heap

namespace World.KeepsFields

variable {before middle after : World}

theorem refl (world : World) : world.KeepsFields world := ⟨rfl, .refl⟩

theorem trans (first : before.KeepsFields middle) (second : middle.KeepsFields after) :
    before.KeepsFields after :=
  ⟨second.statics_eq.trans first.statics_eq, first.heap.trans second.heap⟩

end World.KeepsFields

theorem World.keepsFields_alloc (world : World) {object : HeapObject}
    (blank : object.fields = []) : world.KeepsFields (world.alloc object).2 := by
  rcases world.alloc_cases object with ⟨fault, failed⟩ | ⟨value, heap, allocated, succeeded⟩
  · rw [failed]
    exact .refl world
  · rw [succeeded]
    exact ⟨rfl, .single (.alloc blank allocated)⟩

theorem World.keepsFields_allocStrings (world : World) (texts : List String) :
    world.KeepsFields (world.allocStrings texts).2 := by
  induction texts generalizing world with
  | nil => exact .refl world
  | cons text rest ih =>
      have first : world.KeepsFields (world.alloc (.string text)).2 := world.keepsFields_alloc rfl
      unfold allocStrings
      rcases allocated : world.alloc (.string text) with ⟨fault | value, after⟩
      · rw [allocated] at first
        exact first
      · rw [allocated] at first
        have later : after.KeepsFields (after.allocStrings rest).2 := ih after
        dsimp only
        rcases restEq : after.allocStrings rest with ⟨fault | values, last⟩
        · rw [restEq] at later
          exact first.trans later
        · rw [restEq] at later
          exact first.trans later

namespace Frame

theorem keepsFields_pushNew (frame : Frame) (world : World) {object : HeapObject}
    (blank : object.fields = []) : world.KeepsFields (frame.pushNew world object).2 := by
  have allocated : world.KeepsFields (world.alloc object).2 := world.keepsFields_alloc blank
  unfold pushNew
  rcases allocEq : world.alloc object with ⟨fault | value, after⟩
  · rw [allocEq] at allocated
    exact allocated
  · rw [allocEq] at allocated
    exact allocated

/-- Only the instructions that write fields change them. -/
theorem keepsFields_act (frame : Frame) (world : World) {instr : Instr}
    (quiet : ∀ op field, instr = .field op field → op.isRead = true) :
    world.KeepsFields (frame.act world instr).2 := by
  cases instr with
  | const value =>
      cases value with
      | string text => exact frame.keepsFields_pushNew world rfl
      | _ => exact .refl world
  | new className => exact frame.keepsFields_pushNew world (HeapObject.fields_ofClass className)
  | field op field =>
      have reads : op.isRead = true := quiet op field rfl
      change world.KeepsFields (frame.access world op field).2
      unfold access
      cases field.type.kind? with
      | none => exact .refl world
      | some kind =>
          cases op with
          | getStatic | getField => exact .refl world
          | putStatic | putField => cases reads
  | ret kind => cases kind <;> exact .refl world
  | _ => exact .refl world

end Frame

namespace Heap

variable {heap : Heap} {receiver : Value} {handle : Handle} {className : String}
  {fields : Fields String}

theorem instance?_eq_ok_iff :
    heap.instance? receiver = .ok (handle, className, fields) ↔
      receiver = .ref handle ∧ heap.get? handle = some (.plain className fields) := by
  cases receiver with
  | ref reference =>
      rw [instance?]
      cases held : heap.get? reference with
      | none =>
          refine iff_of_false nofun ?_
          rintro ⟨same, found⟩
          cases same
          cases held.symm.trans found
      | some object =>
          cases object with
          | plain name table =>
              constructor
              · intro found
                cases found
                exact ⟨rfl, held⟩
              · rintro ⟨same, found⟩
                cases same
                cases held.symm.trans found
                rfl
          | string | wrapper =>
              refine iff_of_false nofun ?_
              rintro ⟨same, found⟩
              cases same
              cases held.symm.trans found
  | int | long | float | double | null =>
      refine iff_of_false nofun ?_
      rintro ⟨same, _⟩
      cases same

end Heap

namespace Frame

variable {frame : Frame} {world : World} {field : FieldRef} {kind : Kind}

/-- A static field is written with the value on top of the stack. -/
theorem writeStatic_eq_ok_iff {next : Frame × World} :
    frame.writeStatic world field kind = .ok next ↔
      ∃ value, frame.popKind kind = .ok (value, next.1) ∧
        next.2 =
          { world with statics := world.statics.assign (field.owner, field.name) value } := by
  unfold writeStatic
  rw [bind_eq_ok_iff]
  constructor
  · rintro ⟨⟨value, below⟩, popped, rest⟩
    cases rest
    exact ⟨value, popped, rfl⟩
  · rintro ⟨value, popped, worldEq⟩
    refine ⟨(value, next.1), popped, ?_⟩
    rw [← Prod.eta next, worldEq]
    rfl

/-- A field of an instance is written with the value on top of the stack, the reference below it. -/
theorem writeField_eq_ok_iff {next : Frame × World} :
    frame.writeField world field kind = .ok next ↔
      ∃ value middle handle className fields,
        frame.popKind kind = .ok (value, middle) ∧
          middle.popKind .reference = .ok (.ref handle, next.1) ∧
          world.heap.get? handle = some (.plain className fields) ∧
          next.2 = { world with
            heap := world.heap.put handle (.plain className (fields.assign field.name value)) } := by
  unfold writeField
  constructor
  · intro written
    obtain ⟨⟨value, middle⟩, popped, later⟩ := bind_eq_ok_iff.mp written
    obtain ⟨⟨receiver, below⟩, under, rest⟩ := bind_eq_ok_iff.mp later
    obtain ⟨⟨handle, className, fields⟩, found, last⟩ := bind_eq_ok_iff.mp rest
    obtain ⟨rfl, held⟩ := Heap.instance?_eq_ok_iff.mp found
    cases last
    exact ⟨value, middle, handle, className, fields, popped, under, held, rfl⟩
  · rintro ⟨value, middle, handle, className, fields, popped, under, held, worldEq⟩
    have found := Heap.instance?_eq_ok_iff.mpr
      (And.intro (rfl : Value.ref handle = .ref handle) held)
    refine bind_eq_ok_iff.mpr ⟨(value, middle), popped, ?_⟩
    refine bind_eq_ok_iff.mpr ⟨(.ref handle, next.1), under, ?_⟩
    refine bind_eq_ok_iff.mpr ⟨(handle, className, fields), found, ?_⟩
    rw [← Prod.eta next, worldEq]
    rfl

/-- A field of an instance is pushed in place of the reference on top of the stack. -/
theorem readField_eq_ok_iff {next : Frame} :
    frame.readField world field kind = .ok next ↔
      ∃ handle below className fields,
        frame.popKind .reference = .ok (.ref handle, below) ∧
          world.heap.get? handle = some (.plain className fields) ∧
          below.push ((fields.lookup field.name).getD (.zero kind)) = .ok next := by
  unfold readField
  constructor
  · intro read
    obtain ⟨⟨receiver, below⟩, popped, later⟩ := bind_eq_ok_iff.mp read
    obtain ⟨⟨handle, className, fields⟩, found, last⟩ := bind_eq_ok_iff.mp later
    obtain ⟨rfl, held⟩ := Heap.instance?_eq_ok_iff.mp found
    exact ⟨handle, below, className, fields, popped, held, last⟩
  · rintro ⟨handle, below, className, fields, popped, held, last⟩
    have found := Heap.instance?_eq_ok_iff.mpr
      (And.intro (rfl : Value.ref handle = .ref handle) held)
    refine bind_eq_ok_iff.mpr ⟨(.ref handle, below), popped, ?_⟩
    exact bind_eq_ok_iff.mpr ⟨(handle, className, fields), found, last⟩

/-- Instructions change the heap by its own methods alone. -/
theorem changes_act (frame : Frame) (world : World) (instr : Instr) :
    world.heap.Changes (frame.act world instr).2.heap := by
  by_cases quiet : ∀ op field, instr = .field op field → op.isRead = true
  · exact (frame.keepsFields_act world quiet).heap.changes
  · push Not at quiet
    obtain ⟨op, field, rfl, writes⟩ := quiet
    change world.heap.Changes (frame.access world op field).2.heap
    unfold access
    cases field.type.kind? with
    | none => exact .refl
    | some kind =>
        cases op with
        | getStatic | getField => exact absurd rfl writes
        | putStatic =>
            dsimp only
            cases written : frame.writeStatic world field kind with
            | error fault => exact .refl
            | ok next =>
                obtain ⟨value, _, worldEq⟩ := writeStatic_eq_ok_iff.mp written
                rw [proceedWith, worldEq]
                exact .refl
        | putField =>
            dsimp only
            cases written : frame.writeField world field kind with
            | error fault => exact .refl
            | ok next =>
                obtain ⟨value, _, handle, className, fields, _, _, _, worldEq⟩ :=
                  writeField_eq_ok_iff.mp written
                rw [proceedWith, worldEq]
                exact .single (.put _ _ _)

end Frame

namespace Intrinsic

variable {method : MethodRef} {args : List Value} {world : World} {answer : CallResult}

theorem keepsFields_change (world : World) (receiver : Value)
    (update : WrapperState → Except Fault WrapperState) :
    world.KeepsFields (change world receiver update).2 := by
  unfold change
  split
  · exact .refl world
  · rename_i heap modified
    exact ⟨rfl, Heap.keepsFields_of_modifyWrapper modified⟩

theorem keepsFields_call? (known : call? method args world = some answer) :
    world.KeepsFields answer.2 := by
  cases reacts_of_call? known with
  | constructs | cancels | stores => exact keepsFields_change world _ _
  | tellsCancelled | tellsStored =>
      rw [world_ask]
      exact .refl world
  | reports => exact ⟨rfl, .refl⟩

end Intrinsic

namespace Session

/-- The instruction that takes effect in the next move, and its frame: none does if the budget is
spent. -/
def effect? (limits : Limits) (session : Session) : Option (Frame × Instr) :=
  match session.stage with
  | .running frame =>
      if session.world.executed < limits.budget then frame.code[frame.pc]?.map (frame, ·) else none
  | _ => none

/-- What an instruction comes to, which is counted first. -/
def outcome (session : Session) (frame : Frame) (instr : Instr) : Except Fault Action × World :=
  Frame.act { frame with pc := frame.pc + 1 } session.world.counted instr

/-- How the world turns in a move. -/
inductive Turns (interpreter : Interpreter) (session : Session) : World → Prop
  /-- It does not. -/
  | still (idle : session.effect? interpreter.limits = none) :
      Turns interpreter session session.world
  /-- An instruction is refused, for the budget is spent. -/
  | refused (idle : session.effect? interpreter.limits = none) :
      Turns interpreter session session.world.counted
  /-- An intrinsic method is called. -/
  | intrinsic {method args answer} (idle : session.effect? interpreter.limits = none)
      (known : Intrinsic.call? method args session.world = some answer) :
      Turns interpreter session answer.2
  /-- A native method is called. -/
  | native {method native} (args : List Value)
      (idle : session.effect? interpreter.limits = none)
      (resolved : interpreter.program.resolve? method = some (.native native)) :
      Turns interpreter session
        { session.world with
          heap := (native method args ⟨session.world.heap, session.world.trace⟩).2.heap
          trace := (native method args ⟨session.world.heap, session.world.trace⟩).2.trace }
  /-- An instruction takes effect. -/
  | acted {frame instr} (effect : session.effect? interpreter.limits = some (frame, instr)) :
      Turns interpreter session (session.outcome frame instr).2
  /-- An instruction takes effect, and the names of a missing method are written down. -/
  | reported {frame instr waiting call args} (texts : List String)
      (effect : session.effect? interpreter.limits = some (frame, instr))
      (asks : (session.outcome frame instr).1 = .ok (.guarded waiting call args)) :
      Turns interpreter session ((session.outcome frame instr).2.allocStrings texts).2

variable {interpreter : Interpreter} {session next : Session} {frame : Frame} {instr : Instr}

theorem effect?_eq_some_iff {limits : Limits} :
    session.effect? limits = some (frame, instr) ↔
      session.stage = .running frame ∧ session.world.executed < limits.budget ∧
        frame.code[frame.pc]? = some instr := by
  unfold effect?
  cases session.stage with
  | running other =>
      dsimp only
      split
      · rename_i within
        rw [Option.map_eq_some_iff, Stage.running.injEq]
        constructor
        · rintro ⟨found, fetched, same⟩
          cases same
          exact ⟨rfl, within, fetched⟩
        · rintro ⟨rfl, _, fetched⟩
          exact ⟨instr, fetched, rfl⟩
      · rename_i spent
        exact iff_of_false nofun fun claimed => spent claimed.2.1
  | calling | executing | entering | answering =>
      exact iff_of_false nofun fun claimed => nomatch claimed.1

/-- What an instruction asks for turns the world as the instruction does, or reports. -/
theorem turns_of_follow (effect : session.effect? interpreter.limits = some (frame, instr)) :
    session.Turns interpreter
      (session.follow interpreter.program (session.outcome frame instr)).world := by
  have acted : session.Turns interpreter (session.outcome frame instr).2 := .acted effect
  rcases outcomeEq : session.outcome frame instr with ⟨fault | action, after⟩
  · rw [outcomeEq] at acted
    exact acted
  · rw [outcomeEq] at acted
    cases action with
    | proceed | leave | call => exact acted
    | guarded waiting call args =>
        have asks : (session.outcome frame instr).1 = .ok (.guarded waiting call args) := by
          rw [outcomeEq]
        have reported : ∀ texts, session.Turns interpreter (after.allocStrings texts).2 := by
          intro texts
          have turns : session.Turns interpreter _ := .reported texts effect asks
          rwa [outcomeEq] at turns
        unfold follow
        dsimp only
        cases interpreter.program.fallback? call with
        | none => exact acted
        | some fallback =>
            have turns := reported [call.context, call.target.owner, call.target.name]
            dsimp only
            rcases allocated : after.allocStrings [call.context, call.target.owner,
              call.target.name] with ⟨fault | report, last⟩
            · rw [allocated] at turns
              exact turns
            · rw [allocated] at turns
              exact turns

theorem turns_of_moves (moves : interpreter.Moves session next) :
    session.Turns interpreter next.world := by
  unfold Interpreter.Moves next? at moves
  cases stageEq : session.stage with
  | running frame =>
      simp only [stageEq, Option.some.injEq] at moves
      subst moves
      cases fetched : frame.code[frame.pc]? with
      | none =>
          have idle : session.effect? interpreter.limits = none := by
            simp [effect?, stageEq, fetched]
          simp only [carryOut, fetched]
          exact .still idle
      | some instr =>
          rw [carryOut_eq fetched]
          split
          · rename_i spent
            have beyond : ¬ session.world.executed < interpreter.limits.budget := by omega
            have idle : session.effect? interpreter.limits = none := by
              simp [effect?, stageEq, beyond]
            exact .refused idle
          · rename_i left
            have within : session.world.executed < interpreter.limits.budget := by omega
            exact turns_of_follow (effect?_eq_some_iff.mpr ⟨stageEq, within, fetched⟩)
  | calling method args =>
      have idle : session.effect? interpreter.limits = none := by simp [effect?, stageEq]
      simp only [stageEq, Option.some.injEq] at moves
      subst moves
      unfold dispatch
      cases known : Intrinsic.call? method args session.world with
      | some answer => exact .intrinsic idle known
      | none =>
          dsimp only
          cases resolved : interpreter.program.resolve? method with
          | none =>
              dsimp only
              split <;> exact .still idle
          | some callable =>
              cases callable with
              | body body => exact .still idle
              | native native => exact .native args idle resolved
  | executing body args =>
      have idle : session.effect? interpreter.limits = none := by simp [effect?, stageEq]
      simp only [stageEq, Option.some.injEq] at moves
      subst moves
      unfold openFrame
      split <;> exact .still idle
  | entering body args =>
      have idle : session.effect? interpreter.limits = none := by simp [effect?, stageEq]
      simp only [stageEq, Option.some.injEq] at moves
      subst moves
      unfold enter
      split <;> exact .still idle
  | answering answer =>
      have idle : session.effect? interpreter.limits = none := by simp [effect?, stageEq]
      simp only [stageEq] at moves
      unfold receive? at moves
      split at moves
      · cases moves
      · dsimp only at moves
        split at moves <;> cases moves <;> exact .still idle

end Session

end Weaver.Machine
