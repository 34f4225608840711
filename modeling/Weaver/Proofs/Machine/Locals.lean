import Weaver.Proofs.Body.Bounds
import Weaver.Proofs.Splice.Beyond

/-!
# Declared locals cover every access

The declared locals of a body are counted up to a limit.  They cover the arguments and every load and
store as far as these end within the limit, and an execution fails for a local outside the declared
ones only at an access that ends beyond it, or where a method that it calls does.
-/

namespace Weaver

theorem Instr.localBound_eq (instr : Instr) :
    instr.localBound = min instr.localEnd slotLimit := by
  cases instr <;> simp [localBound, localEnd, addSlots]

namespace Body

/-- What lies within the limit is covered by the declared locals: the receiver with the parameters, and
every load and store. -/
structure CoversLocals (body : Body) : Prop where
  limited : body.maxLocals ≤ slotLimit
  arguments : body.firstArgSlot + body.signature.totalSlots ≤ slotLimit →
    body.firstArgSlot + body.signature.totalSlots ≤ body.maxLocals
  accesses : ∀ instr ∈ body.code.instrs, instr.localEnd ≤ slotLimit →
    instr.localEnd ≤ body.maxLocals

variable {body coded : Body} {instrs : List Instr} {owner name : String} {signature : Signature}
  {access : Access}

/-- Code is accepted exactly if the depths of the body with that code are known. -/
theorem withCode_eq_ok_iff :
    body.withCode instrs = .ok coded ↔
      ∃ maxStack, { body with code := .ofList instrs }.requiredMaxStack = .ok maxStack ∧
        coded = { body with
          code := .ofList instrs
          maxStack
          maxLocals := max body.maxLocals { body with code := .ofList instrs }.requiredMaxLocals } := by
  unfold withCode
  dsimp only
  cases { body with code := .ofList instrs }.requiredMaxStack with
  | error fault => simp [Except.map]
  | ok maxStack => simp [Except.map, eq_comm]

/-- The highest depth can be told of no code at all and of balanced code. -/
theorem requiredMaxStack_isOk_iff :
    (∃ highest, body.requiredMaxStack = .ok highest) ↔
      body.code.instrs = [] ∨ Balanced body.code.instrs := by
  by_cases empty : body.code.instrs = []
  · have unique : Code.UniqueLabels body.code.instrs := by
      rw [empty]
      exact Code.uniqueLabels_nil
    obtain ⟨positions, collected⟩ := (Code.labelPositions_isOk_iff body.code).mpr unique
    refine iff_of_true ?_ (.inl empty)
    rw [requiredMaxStack, stackDepths, collected]
    dsimp only
    rw [empty]
    exact ⟨0, rfl⟩
  · rw [or_iff_right empty, ← stackDepths_isOk_iff empty, requiredMaxStack]
    cases body.stackDepths with
    | error fault => simp [Except.map]
    | ok depths => simp [Except.map]

theorem withCode_isOk_iff :
    (∃ coded, body.withCode instrs = .ok coded) ↔ instrs = [] ∨ Balanced instrs := by
  have depths : (∃ highest, { body with code := .ofList instrs }.requiredMaxStack = .ok highest) ↔
      instrs = [] ∨ Balanced instrs := requiredMaxStack_isOk_iff
  rw [← depths]
  constructor
  · rintro ⟨coded, accepted⟩
    obtain ⟨maxStack, known, -⟩ := withCode_eq_ok_iff.mp accepted
    exact ⟨maxStack, known⟩
  · rintro ⟨maxStack, known⟩
    exact ⟨_, withCode_eq_ok_iff.mpr ⟨maxStack, known, rfl⟩⟩

theorem coversLocals_of_required (limited : body.maxLocals ≤ slotLimit)
    (required : body.requiredMaxLocals ≤ body.maxLocals) : body.CoversLocals := by
  obtain ⟨arguments, accesses⟩ := requiredMaxLocals_le_iff.mp required
  refine ⟨limited, ?_, ?_⟩
  · intro fits
    rwa [argumentSlots_eq, addSlots_of_le fits] at arguments
  · intro instr member fits
    have covered := accesses instr member
    rwa [Instr.localBound_eq, Nat.min_eq_left fits] at covered

theorem requiredMaxLocals_le_slotLimit (body : Body) : body.requiredMaxLocals ≤ slotLimit := by
  refine requiredMaxLocals_le_iff.mpr ⟨addSlots_le _ _, fun instr _ => ?_⟩
  rw [Instr.localBound_eq]
  exact Nat.min_le_right _ _

/-- A body that is made with code declares what the code requires. -/
theorem withCode_ofNames
    (accepted : (ofNames owner name signature access).withCode instrs = .ok body) :
    body.signature = signature ∧ body.access = access ∧ body.code.instrs = instrs ∧
      body.maxLocals = body.requiredMaxLocals := by
  obtain ⟨maxStack, -, rfl⟩ := withCode_eq_ok_iff.mp accepted
  refine ⟨rfl, rfl, rfl, ?_⟩
  exact Nat.max_eq_right (le_foldl_max Instr.localBound _ _)

/-- Arguments beyond the limit are declared as far as the limit goes. -/
theorem maxLocals_of_beyond
    (accepted : (ofNames owner name signature access).withCode instrs = .ok body)
    (beyond : slotLimit < body.firstArgSlot + body.signature.totalSlots) :
    body.maxLocals = slotLimit := by
  obtain ⟨-, -, -, maxLocalsEq⟩ := withCode_ofNames accepted
  apply Nat.le_antisymm (maxLocalsEq ▸ body.requiredMaxLocals_le_slotLimit)
  have arguments := (requiredMaxLocals_le_iff.mp (Nat.le_of_eq maxLocalsEq.symm)).1
  rw [argumentSlots_eq, addSlots, Nat.min_eq_right (Nat.le_of_lt beyond)] at arguments
  exact arguments

end Body

namespace Machine

/-- Whether a fault is that of a local outside the declared ones. -/
def Fault.isOutOfRange : Fault → Bool
  | .frame _ (.localOutOfRange ..) => true
  | _ => false

/-- The result is no fault of a local outside the declared ones. -/
def InRange {α : Type} (result : Except Fault α) : Prop :=
  ∀ fault, result = .error fault → fault.isOutOfRange = false

namespace InRange

variable {α β : Type} {result : Except Fault α}

theorem ok (value : α) : InRange (.ok value) := by
  rintro fault ⟨⟩

theorem bind {next : α → Except Fault β} (inRange : InRange result)
    (continuation : ∀ value, InRange (next value)) : InRange (result >>= next) := by
  cases result with
  | error fault =>
      rintro later ⟨⟩
      exact inRange fault rfl
  | ok value => exact continuation value

theorem map (inRange : InRange result) (change : α → β) : InRange (result.map change) := by
  cases result with
  | error fault =>
      rintro later ⟨⟩
      exact inRange fault rfl
  | ok value => exact ok _

theorem of_contained (contained : Contained result) : InRange result := by
  intro fault failed
  have within := contained fault failed
  cases fault with
  | frame method cause => cases cause <;> first | rfl | cases within
  | _ => rfl

theorem of_safe {property : α → Prop} (safe : Safe property result) : InRange result := by
  rintro fault rfl
  cases fault with
  | frame method cause => cases cause <;> first | rfl | cases safe
  | _ => rfl

end InRange

namespace Frame

variable {frame : Frame} {world : World}

theorem inRange_push (frame : Frame) (value : Value) : InRange (frame.push value) := by
  rw [push_eq]
  split
  · exact .ok _
  · rintro fault ⟨⟩
    rfl

theorem inRange_pushResult (frame : Frame) (result : Option Value) :
    InRange (frame.pushResult result) := by
  cases result with
  | none => exact .ok _
  | some value => exact frame.inRange_push value

theorem inRange_popKind (frame : Frame) (kind : Kind) : InRange (frame.popKind kind) :=
  .of_contained (frame.contained_popKind kind)

theorem inRange_popInt (frame : Frame) : InRange frame.popInt := by
  rw [popInt_eq_bind]
  refine (frame.inRange_popKind .int).bind fun top => ?_
  split
  · exact .ok _
  · rintro fault ⟨⟩
    rfl

theorem inRange_test (frame : Frame) (cond : Cond) : InRange (frame.test cond) := by
  refine test_cases (motive := fun _ test => InRange (test frame)) ?_ ?_ ?_ ?_ cond
  · exact .ok _
  · exact fun _ _ _ _ => frame.inRange_popInt.bind fun _ => .ok _
  · exact fun _ _ _ _ => (frame.inRange_popKind .reference).bind fun _ => .ok _
  · exact fun _ _ _ _ => frame.inRange_popInt.bind fun top => top.2.inRange_popInt.bind fun _ => .ok _

theorem inRange_calculate (frame : Frame) (op : ArithOp) (kind : Kind) :
    InRange (frame.calculate op kind) := by
  refine (frame.inRange_popKind kind).bind fun right =>
    (right.2.inRange_popKind kind).bind fun left => ?_
  dsimp only
  split
  · exact inRange_push _ _
  · rintro fault ⟨⟩
    rfl

theorem inRange_duplicate (frame : Frame) : InRange frame.duplicate := by
  unfold duplicate
  split
  · split
    · exact inRange_push _ _
    · rintro fault ⟨⟩
      rfl
  · rintro fault ⟨⟩
    rfl

theorem inRange_cast (frame : Frame) (heap : Heap) (className : String) :
    InRange (frame.cast heap className) :=
  (frame.inRange_popKind .reference).bind fun top =>
    (InRange.of_safe (heap.checkCast_safe top.1 className)).bind fun _ => top.2.inRange_push top.1

theorem inRange_proceedWith {result : Except Fault (Frame × World)} (inRange : InRange result) :
    InRange (proceedWith world result).1 := by
  cases result with
  | error fault =>
      rintro other ⟨⟩
      exact inRange fault rfl
  | ok next => exact .ok _

theorem inRange_access (frame : Frame) (world : World) (op : FieldOp) (field : FieldRef) :
    InRange (frame.access world op field).1 := by
  unfold access
  split
  · rintro fault ⟨⟩
    rfl
  · rename_i kind _
    have instance? (receiver : Value) : InRange (world.heap.instance? receiver) :=
      .of_safe (world.heap.instance?_safe receiver)
    cases op with
    | getStatic => exact (frame.inRange_push _).map _
    | putStatic => exact inRange_proceedWith ((frame.inRange_popKind kind).bind fun _ => .ok _)
    | getField =>
        exact ((frame.inRange_popKind .reference).bind fun top =>
          (instance? top.1).bind fun _ => top.2.inRange_push _).map _
    | putField =>
        exact inRange_proceedWith ((frame.inRange_popKind kind).bind fun top =>
          (top.2.inRange_popKind .reference).bind fun receiver =>
            (instance? receiver.1).bind fun _ => .ok _)

theorem inRange_pushNew (frame : Frame) (world : World) (object : HeapObject) :
    InRange (frame.pushNew world object).1 := by
  have allocated : InRange (world.alloc object).1 := .of_safe (world.alloc_safe object)
  unfold pushNew
  split
  · rename_i fault after failed
    rw [failed] at allocated
    rintro other ⟨⟩
    exact allocated fault rfl
  · exact (frame.inRange_push _).map _

theorem inRange_goto (frame : Frame) (label : Label) : InRange (frame.goto label) := by
  unfold goto
  split
  · exact .ok _
  · rintro fault ⟨⟩
    rfl

/-- A local is outside the declared ones exactly if its end is. -/
theorem checkLocal_eq_error_iff {kind : Kind} {index : Nat} {fault : Fault} :
    frame.checkLocal kind index = .error fault ↔
      frame.body.maxLocals < index + kind.slots ∧
        fault = frame.corrupt (.localOutOfRange index frame.body.maxLocals) := by
  unfold checkLocal
  by_cases outside : frame.body.maxLocals < index + kind.slots
  · simp [outside, eq_comm]
  · simp [outside]

theorem lt_of_loadLocal {kind : Kind} {index : Nat} {fault : Fault}
    (failed : frame.loadLocal kind index = .error fault) (out : fault.isOutOfRange = true) :
    frame.body.maxLocals < index + kind.slots := by
  unfold loadLocal at failed
  split at failed
  · rename_i checked
    exact (checkLocal_eq_error_iff.mp checked).1
  · dsimp only at failed
    split at failed
    · split at failed
      · cases failed
      · cases failed
        cases out
    · cases failed
      cases out

theorem lt_of_storeLocal {index : Nat} {value : Value} {fault : Fault}
    (failed : frame.storeLocal index value = .error fault) :
    frame.body.maxLocals < index + value.slots := by
  unfold storeLocal at failed
  split at failed
  · rename_i checked
    exact (checkLocal_eq_error_iff.mp checked).1
  · dsimp only at failed
    split at failed <;> cases failed

/-- Only a load or a store whose end is outside the declared locals fails for a local. -/
theorem lt_localEnd_of_act {instr : Instr} {fault : Fault} {after : World}
    (failed : frame.act world instr = (.error fault, after)) (out : fault.isOutOfRange = true) :
    frame.body.maxLocals < instr.localEnd := by
  have otherwise : InRange (frame.act world instr).1 → frame.body.maxLocals < instr.localEnd := by
    intro inRange
    rw [failed] at inRange
    cases out.symm.trans (inRange fault rfl)
  cases instr with
  | load kind index =>
      cases loaded : frame.loadLocal kind index with
      | error cause =>
          rw [act, loaded] at failed
          cases failed
          exact lt_of_loadLocal loaded out
      | ok value =>
          apply otherwise
          rw [act, loaded]
          exact (frame.inRange_push value).map _
  | store kind index =>
      cases popped : frame.popKind kind with
      | error cause =>
          apply otherwise
          rw [act, popped]
          rintro other ⟨⟩
          exact frame.inRange_popKind kind cause popped
      | ok top =>
          obtain ⟨value, below⟩ := top
          obtain ⟨kindEq, rest, -, belowEq⟩ := popKind_eq_ok_iff.mp popped
          cases stored : below.storeLocal index value with
          | error cause =>
              have outside := lt_of_storeLocal stored
              rw [belowEq, Value.slots, kindEq] at outside
              exact outside
          | ok next =>
              apply otherwise
              rw [act, popped]
              change InRange ((below.storeLocal index value).map Action.proceed)
              rw [stored]
              exact .ok _
  | nop | label => exact otherwise (.ok _)
  | const constant =>
      apply otherwise
      cases constant with
      | string text => exact frame.inRange_pushNew world _
      | _ => exact (frame.inRange_pushResult _).map _
  | pop =>
      apply otherwise
      rw [act, popSlot]
      split
      · rintro other ⟨⟩
        rfl
      · exact .ok _
  | dup => exact otherwise (frame.inRange_duplicate.map _)
  | arith op kind => exact otherwise ((frame.inRange_calculate op kind).map _)
  | new className => exact otherwise (frame.inRange_pushNew world _)
  | checkCast className => exact otherwise ((frame.inRange_cast world.heap className).map _)
  | field op field => exact otherwise (frame.inRange_access world op field)
  | call mode method =>
      apply otherwise
      refine (InRange.of_contained (frame.contained_popArgs method mode.hasReceiver)).bind
        fun args => ?_
      dsimp only
      split
      · rintro other ⟨⟩
        rfl
      · exact .ok _
  | guardedCall call =>
      exact otherwise ((InRange.of_contained (frame.contained_popArgs call.target false)).map _)
  | jump cond target =>
      refine otherwise (((frame.inRange_test cond).bind fun tested => ?_).map _)
      dsimp only
      split
      · exact tested.2.inRange_goto target
      · exact .ok _
  | ret kind? =>
      cases kind? with
      | none => exact otherwise (.ok _)
      | some kind => exact otherwise ((frame.inRange_popKind kind).map _)
  | throw =>
      refine otherwise ((frame.inRange_popKind .reference).bind fun top => ?_)
      rintro other ⟨⟩
      rfl

end Frame

namespace Interpreter

variable {interpreter : Interpreter} {behaviour : Behaviour} {body : Body} {frame : Frame}
  {world : World} {now : Frame × World}

/-- A frame that executes a body goes on to do so. -/
theorem executes_of_advances (unique : Code.UniqueLabels body.code.instrs)
    (executes : frame.Executes body)
    (run : Relation.ReflTransGen (interpreter.Advances behaviour) (frame, world) now) :
    now.1.Executes body := by
  induction run with
  | refl => exact executes
  | @tail middle next _ step ih =>
      have kept : ¬ interpreter.Overruns behaviour middle.1 middle.2 := by
        rintro ⟨fault, after, failed, -⟩
        cases step.symm.trans failed
      -- a body is itself with nothing put into it
      have inserted : Splice.Inserted body 0 [] body :=
        .nil unique (Nat.le_refl _) (Nat.le_refl _)
      have mirrors : MirrorsStep body body #[] _ _ _ := step_image ih inserted kept
      exact mirrors.2 _ (congrArg Prod.fst step)

/-- A frame that waited fails for no local, unless the call did. -/
theorem answer_of_resume {waiting : Frame} {answer : CallResult} {fault : Fault} {last : World}
    (resumed : resume waiting answer = (.error fault, last)) (out : fault.isOutOfRange = true) :
    answer = (.error fault, last) := by
  rcases answer with ⟨cause | result, after⟩
  · cases resumed
    rfl
  · have inRange := (waiting.inRange_pushResult result).map Progress.running
    cases out.symm.trans (inRange fault (congrArg Prod.fst resumed))

/-- A step that fails for a local outside the declared ones is a load or a store that ends there, or
the called method failed so. -/
theorem outOfRange_of_step {fault : Fault} {last : World}
    (failed : interpreter.step behaviour frame world = (.error fault, last))
    (out : fault.isOutOfRange = true) :
    interpreter.answer? behaviour frame world = some (.error fault, last) ∨
      ∃ instr, frame.code[frame.pc]? = some instr ∧ frame.body.maxLocals < instr.localEnd := by
  cases fetched : frame.code[frame.pc]? with
  | none =>
      rw [step, fetched] at failed
      cases failed
      cases out
  | some instr =>
      rw [step_eq fetched] at failed
      split at failed
      · cases failed
        cases out
      · rcases acted : Frame.act { frame with pc := frame.pc + 1 } world.counted instr with
          ⟨cause | action, after⟩
        · rw [acted] at failed
          cases failed
          have outside := Frame.lt_localEnd_of_act acted out
          exact .inr ⟨instr, rfl, outside⟩
        · rw [acted] at failed
          rw [answer?, fetched]
          dsimp only [Option.bind_some]
          rw [acted]
          cases action with
          | proceed next => cases failed
          | leave result => cases failed
          | call waiting method args => exact .inl (congrArg some (answer_of_resume failed out))
          | guarded waiting call args => exact .inl (congrArg some (answer_of_resume failed out))

/-- A fault of a local that the body does not answer for: the called method failed so, or the next
instruction is an access that ends beyond the limit. -/
def Excused (interpreter : Interpreter) (behaviour : Behaviour) (body : Body) (fault : Fault)
    (last : World) (now : Frame × World) : Prop :=
  interpreter.answer? behaviour now.1 now.2 = some (.error fault, last) ∨
    ∃ instr ∈ body.code.instrs, now.1.code[now.1.pc]? = some instr ∧ slotLimit < instr.localEnd

theorem excused_of_step {fault : Fault} {last : World} (covers : body.CoversLocals)
    (executes : frame.Executes body)
    (failed : interpreter.step behaviour frame world = (.error fault, last))
    (out : fault.isOutOfRange = true) :
    interpreter.Excused behaviour body fault last (frame, world) := by
  rcases outOfRange_of_step failed out with answered | ⟨instr, fetched, outside⟩
  · exact .inl answered
  · have member : instr ∈ body.code.instrs := by
      rw [executes.code_eq] at fetched
      exact List.mem_of_getElem? (by simpa using fetched)
    rw [executes.body_eq] at outside
    refine .inr ⟨instr, member, fetched, ?_⟩
    by_contra within
    exact absurd (covers.accesses instr member (Nat.le_of_not_lt within)) (Nat.not_le_of_lt outside)

/-- A body that is made with code declares locals for all that ends within the limit: for the receiver
and the parameters, and for every load and store.  So if its arguments fit it can be entered with them,
and it never fails for a local outside the declared ones, unless at an access that ends beyond the limit
or in a method that it calls.  Arguments that do not fit are no reason to refuse a body: their count
stops at the limit, and so do the declared locals. -/
theorem withCode_covers_locals (owner name : String) (signature : Signature) (access : Access)
    (instrs : List Instr) (body : Body)
    (accepted : (Body.ofNames owner name signature access).withCode instrs = .ok body) :
    body.signature = signature ∧ body.access = access ∧ body.code.instrs = instrs ∧
    body.CoversLocals ∧
    (slotLimit < body.firstArgSlot + signature.totalSlots → body.maxLocals = slotLimit) ∧
    (∀ other : Signature, ∃ coded,
      (Body.ofNames owner name other access).withCode instrs = .ok coded) ∧
    ∀ (interpreter : Interpreter) (behaviour : Behaviour) (args : List Value) (world : World),
      Takes body args → body.firstArgSlot + signature.totalSlots ≤ slotLimit →
      ∃ first, Frame.enter body args = .ok first ∧
        (∀ now method index maxLocals last,
          Relation.ReflTransGen (interpreter.Advances behaviour) (first, world) now →
          interpreter.step behaviour now.1 now.2 =
            (.error (.frame method (.localOutOfRange index maxLocals)), last) →
          interpreter.Excused behaviour body (.frame method (.localOutOfRange index maxLocals))
            last now) ∧
        ∀ steps method index maxLocals last,
          interpreter.run behaviour steps first world =
            (.error (.frame method (.localOutOfRange index maxLocals)), last) →
          ∃ now, Relation.ReflTransGen (interpreter.Advances behaviour) (first, world) now ∧
            interpreter.Excused behaviour body (.frame method (.localOutOfRange index maxLocals))
              last now := by
  obtain ⟨rfl, rfl, rfl, maxLocalsEq⟩ := Body.withCode_ofNames accepted
  have limited : body.maxLocals ≤ slotLimit := maxLocalsEq ▸ body.requiredMaxLocals_le_slotLimit
  have covers := Body.coversLocals_of_required limited (Nat.le_of_eq maxLocalsEq.symm)
  have known := Body.withCode_isOk_iff.mp ⟨body, accepted⟩
  have unique : Code.UniqueLabels body.code.instrs := by
    rcases known with empty | balanced
    · rw [empty]
      exact Code.uniqueLabels_nil
    · exact balanced.labels
  refine ⟨rfl, rfl, rfl, covers, Body.maxLocals_of_beyond accepted,
    fun other => Body.withCode_isOk_iff.mpr known, ?_⟩
  intro interpreter behaviour args world takes fits
  obtain ⟨locals, entered, sized, -⟩ := Frame.enter_eq_ok takes
    (Body.labelPositions_eq_labels unique) (covers.arguments fits)
  have executes : Frame.Executes body
      ⟨body, body.code.instrs.toArray, body.labels, 0, [], locals⟩ := ⟨rfl, rfl, rfl, sized⟩
  refine ⟨_, entered, ?_, ?_⟩
  · intro now method index maxLocals last run failed
    exact excused_of_step covers (executes_of_advances unique executes run) failed rfl
  · intro steps method index maxLocals last failed
    rcases exists_of_run_eq_error failed with limit | ⟨now, run, failing⟩
    · cases limit
    · exact ⟨now, run,
        excused_of_step covers (executes_of_advances unique executes run) failing rfl⟩

/-- A method that moves its parameter up to the last two slots there are. -/
def spilling : Body :=
  { Body.ofNames "a/B" "m" ⟨[.long], .void⟩ ⟨9⟩ with
    code := .ofList [.load .long 0, .store .long 65533, .ret none]
    maxStack := 2
    maxLocals := 65535 }

theorem withCode_covers_locals_spilling :
    (Body.ofNames "a/B" "m" ⟨[.long], .void⟩ ⟨9⟩).withCode
        [.load .long 0, .store .long 65533, .ret none] = .ok spilling ∧
      Takes spilling [.long 5] ∧
      spilling.firstArgSlot + (Signature.mk [.long] .void).totalSlots ≤ slotLimit ∧
      ∃ first, Frame.enter spilling [.long 5] = .ok first ∧
        ∀ steps method index maxLocals last,
          run ⟨.empty, .standard⟩ (fun _ _ world => (.ok none, world)) steps first
              (.fresh .standard .empty) =
            (.error (.frame method (.localOutOfRange index maxLocals)), last) →
          ∃ now : Frame × World,
            answer? ⟨.empty, .standard⟩ (fun _ _ world => (.ok none, world)) now.1 now.2 =
              some (.error (.frame method (.localOutOfRange index maxLocals)), last) := by
  have accepted : (Body.ofNames "a/B" "m" ⟨[.long], .void⟩ ⟨9⟩).withCode
      [.load .long 0, .store .long 65533, .ret none] = .ok spilling := by
    decide +kernel
  have takes : Takes spilling [.long 5] := by decide
  have fits : spilling.firstArgSlot + (Signature.mk [.long] .void).totalSlots ≤ slotLimit := by
    decide
  have within : ∀ instr ∈ spilling.code.instrs, ¬ slotLimit < instr.localEnd := by decide
  obtain ⟨_, _, _, _, _, _, executions⟩ := withCode_covers_locals _ _ _ _ _ _ accepted
  obtain ⟨first, entered, _, runs⟩ := executions ⟨.empty, .standard⟩
    (fun _ _ world => (.ok none, world)) [.long 5] (.fresh .standard .empty) takes fits
  refine ⟨accepted, takes, fits, first, entered, ?_⟩
  intro steps method index maxLocals last failed
  obtain ⟨now, _, answered | ⟨instr, member, _, beyond⟩⟩ := runs _ _ _ _ _ failed
  · exact ⟨now, answered⟩
  · exact absurd beyond (within instr member)

/-- A method whose parameters do not fit the limit is accepted: the locals that it declares do not cover
them. -/
theorem not_covered_oversized :
    ∃ body, (Body.ofNames "a/B" "m" ⟨List.replicate 65536 .int, .void⟩ ⟨9⟩).withCode [.ret none] =
        .ok body ∧
      body.maxLocals = 65535 ∧ body.firstArgSlot + body.signature.totalSlots = 65536 := by
  have returning : (Body.ofNames "a/B" "m" ⟨[], .void⟩ ⟨9⟩).withCode [.ret none] =
      .ok { Body.ofNames "a/B" "m" ⟨[], .void⟩ ⟨9⟩ with code := .ofList [.ret none] } := by
    decide +kernel
  have oversized : ∃ body, (Body.ofNames "a/B" "m" ⟨List.replicate 65536 .int, .void⟩ ⟨9⟩).withCode
      [.ret none] = .ok body :=
    Body.withCode_isOk_iff.mpr (Body.withCode_isOk_iff.mp ⟨_, returning⟩)
  obtain ⟨body, accepted⟩ := oversized
  have slots : body.firstArgSlot + body.signature.totalSlots = 65536 := by
    obtain ⟨signatureEq, accessEq, -⟩ := Body.withCode_ofNames accepted
    rw [Body.firstArgSlot, Body.isStatic, accessEq, signatureEq, Signature.totalSlots_replicate]
    rfl
  exact ⟨body, accepted, Body.maxLocals_of_beyond accepted (by rw [slots]; decide), slots⟩

end Interpreter

end Machine

end Weaver
