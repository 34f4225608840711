import Weaver.Proofs.Machine.Overrides
import Weaver.Proofs.Splice.Transparent

/-!
# Cancelled injections leave the method

Behind the dispatch call a cancellable run asks its wrapper.  If it was cancelled, the method returns
from inside the run with what overrides its result.  If it was not, or where it cannot be, the run
goes on to the instruction at the site.
-/

namespace Weaver.Machine

namespace Interpreter

variable {interpreter : Interpreter} {other : Behaviour} {frame : Frame} {now : World}
  {positions : Nat → Prop} {splice : Splice} {slot : Nat} {handle : Handle} {state : WrapperState}

/-- The value on the stack is cast, if that is needed, and returned. -/
theorem endsWithin_return {behaviour : Behaviour} {cast : Option String} {value : Value}
    {rest : List Slot}
    (stretch : Stretch frame.code frame.pc
      (cast.toList.map Instr.checkCast ++ [.ret (some value.kind)]))
    (inside : ∀ offset ≤ cast.toList.length, positions (frame.pc + offset))
    (budget : now.executed + cast.toList.length < interpreter.limits.budget)
    (reference : cast.isSome → value.kind = .reference)
    (stackEq : frame.stack = value.cells ++ rest)
    (room : frame.stack.length ≤ frame.body.maxStack) :
    ∃ count ≤ cast.toList.length + 1, interpreter.EndsWithin behaviour positions (frame, now)
      (now.heap.castTo value cast, now.spent count) := by
  cases cast with
  | none =>
      have returns : interpreter.step behaviour frame now = (.ok (.left (some value)), now.spent 1) :=
        step_of_ret stretch.head budget rfl stackEq
      exact ⟨1, Nat.le_refl _, .leaves (inside 0 (Nat.zero_le _)) returns⟩
  | some className =>
      have kindEq : value.kind = .reference := reference rfl
      rw [Value.cells_of_narrow (Value.slots_of_reference kindEq)] at stackEq
      have within : now.executed + 1 < interpreter.limits.budget := budget
      have casts : interpreter.step behaviour frame now =
          ((now.heap.checkCast value className).map fun _ => .running (frame.behind frame.stack),
            now.spent 1) := by
        rw [step_eq_finish stretch.head (by omega)]
        exact finish_cast kindEq stackEq room
      rw [Heap.castTo]
      cases checked : now.heap.checkCast value className with
      | error fault =>
          rw [checked] at casts
          exact ⟨1, by simp, .fails (inside 0 (Nat.zero_le _)) casts⟩
      | ok =>
          rw [checked] at casts
          have returns : interpreter.step behaviour (frame.behind frame.stack) (now.spent 1) =
              (.ok (.left (some value)), now.spent 2) := by
            apply step_of_ret stretch.tail.head within rfl
            rw [Value.cells_of_narrow (Value.slots_of_reference kindEq)]
            exact stackEq
          have advances : interpreter.Advances behaviour (frame, now)
              (frame.behind frame.stack, now.spent 1) := casts
          exact ⟨2, Nat.le_refl _, .goesOn (inside 0 (Nat.zero_le _)) advances
            (.leaves (inside 1 (Nat.le_refl _)) returns)⟩

/-- The wrapper is loaded and asked for the value to return, which is then returned. -/
theorem endsWithin_fetch {ret : Ty} {accessor : ReturnAccessor}
    (known : Wrapper.returnAccessor? ret = some accessor)
    (paramsEq : accessor.method.signature.params = [])
    (retEq : accessor.method.signature.ret.kind? = some accessor.kind)
    (reference : accessor.cast.isSome → accessor.kind = .reference)
    (stretch : Stretch frame.code frame.pc
      (.load .reference slot :: .call .virtual accessor.method ::
        (accessor.cast.toList.map Instr.checkCast ++ [.ret (some accessor.kind)])))
    (inside : ∀ offset ≤ accessor.cast.toList.length + 2, positions (frame.pc + offset))
    (budget : now.executed + accessor.cast.toList.length + 2 < interpreter.limits.budget)
    (room : frame.stack.length + 2 ≤ frame.body.maxStack)
    (declared : slot + 1 ≤ frame.body.maxLocals)
    (held : frame.locals[slot]? = some (.value (.ref handle)))
    (wrapper : now.heap.wrapper (.ref handle) = .ok (handle, state)) :
    ∃ count ≤ accessor.cast.toList.length + 3,
      interpreter.EndsWithin (withWrappers other) positions (frame, now)
        (accessor.fetch now.heap state.returnValue, now.spent count) := by
  have loaded : frame.loadLocal .reference slot = .ok (.ref handle) :=
    Frame.loadLocal_eq_ok_iff.mpr ⟨declared, rfl, held⟩
  have load : interpreter.Advances (withWrappers other) (frame, now)
      (frame.behind (.value (.ref handle) :: frame.stack), now.spent 1) :=
    (advances_load_iff stretch.head).mpr
      ⟨_, loaded, by omega, Nat.le_trans (Nat.le_succ _) room, rfl⟩
  have within : (now.spent 1).executed < interpreter.limits.budget := by
    simp only [World.spent]
    omega
  have popped : Frame.popArgs
      { frame with pc := frame.pc + 2, stack := .value (.ref handle) :: frame.stack }
      accessor.method true = .ok ([.ref handle], { frame with pc := frame.pc + 2 }) :=
    Frame.popArgs_receiver_eq_ok (by rw [paramsEq]; rfl) rfl rfl
  have answered : withWrappers other accessor.method [.ref handle] (now.spent 2) =
      ((Intrinsic.returnValue accessor.method state.returnValue).map some, now.spent 2) := by
    have same : (now.spent 2).heap.wrapper (.ref handle) = .ok (handle, state) := wrapper
    rw [withWrappers_returnAccessor other known, Intrinsic.ask, same]
  unfold ReturnAccessor.fetch
  cases read : Intrinsic.returnValue accessor.method state.returnValue with
  | error fault =>
      rw [read] at answered
      have fails : interpreter.step (withWrappers other)
          (frame.behind (.value (.ref handle) :: frame.stack)) (now.spent 1) =
            (.error fault, now.spent 2) :=
        step_of_failed_call stretch.tail.head within popped rfl answered
      exact ⟨2, by omega, .goesOn (inside 0 (by omega)) load (.fails (inside 1 (by omega)) fails)⟩
  | ok value =>
      rw [read] at answered
      have kindEq : value.kind = accessor.kind := Intrinsic.kind_of_returnValue retEq read
      have fits : frame.stack.length + value.slots ≤ frame.body.maxStack :=
        Nat.le_trans (Nat.add_le_add_left value.kind.slots_le_two _) room
      have call : interpreter.Advances (withWrappers other)
          (frame.behind (.value (.ref handle) :: frame.stack), now.spent 1)
          ({ frame with pc := frame.pc + 2, stack := value.cells ++ frame.stack },
            now.spent 2) :=
        advances_of_call stretch.tail.head within popped rfl answered
          (Frame.push_eq_ok_iff.mpr ⟨fits, rfl⟩)
      have returned := stretch.tail.tail
      rw [← kindEq] at returned reference
      have returns : ∃ count ≤ accessor.cast.toList.length + 1,
          interpreter.EndsWithin (withWrappers other) positions
            ({ frame with pc := frame.pc + 2, stack := value.cells ++ frame.stack }, now.spent 2)
            (now.heap.castTo value accessor.cast, (now.spent 2).spent count) := by
        apply endsWithin_return returned
        · intro offset within
          rw [Nat.add_assoc]
          exact inside (2 + offset) (by omega)
        · simp only [World.spent]
          omega
        · exact reference
        · rfl
        · rw [List.length_append, Value.length_cells, Nat.add_comm]
          exact fits
      obtain ⟨count, few, ends⟩ := returns
      rw [World.spent_spent] at ends
      exact ⟨2 + count, by omega,
        .goesOn (inside 0 (by omega)) load (.goesOn (inside 1 (by omega)) call ends)⟩

/-- The method is left with what overrides its result. -/
theorem endsWithin_leave {ret : Ty}
    (stretch : Stretch frame.code frame.pc (Splice.leave ret slot))
    (inside : ∀ offset < (Splice.leave ret slot).length, positions (frame.pc + offset))
    (budget : now.executed + (Splice.leave ret slot).length ≤ interpreter.limits.budget)
    (room : frame.stack.length + 2 ≤ frame.body.maxStack)
    (declared : slot + 1 ≤ frame.body.maxLocals)
    (held : frame.locals[slot]? = some (.value (.ref handle)))
    (wrapper : now.heap.wrapper (.ref handle) = .ok (handle, state)) :
    ∃ result, Overrides now.heap ret state.returnValue result ∧
      ∃ count ≤ (Splice.leave ret slot).length,
        interpreter.EndsWithin (withWrappers other) positions (frame, now)
          (result, now.spent count) := by
  cases kindEq : ret.kind? with
  | none =>
      have leaveEq : Splice.leave ret slot = [.ret none] := by
        simp [Splice.leave, Wrapper.returnAccessor?, kindEq]
      rw [leaveEq] at stretch inside budget ⊢
      have returns : interpreter.step (withWrappers other) frame now =
          (.ok (.left none), now.spent 1) := step_eq_finish stretch.head budget
      exact ⟨.ok none, .nothing kindEq, 1, Nat.le_refl _,
        .leaves (inside 0 Nat.zero_lt_one) returns⟩
  | some kind =>
      obtain ⟨accessor, known, rfl, paramsEq, retEq, castEq⟩ := exists_returnAccessor kindEq
      have leaveEq : Splice.leave ret slot =
          .load .reference slot :: .call .virtual accessor.method ::
            (accessor.cast.toList.map Instr.checkCast ++ [.ret (some accessor.kind)]) := by
        simp [Splice.leave, known]
      rw [leaveEq] at stretch inside budget ⊢
      simp only [List.length_cons, List.length_append, List.length_map, List.length_nil]
        at inside budget ⊢
      have reference : accessor.cast.isSome → accessor.kind = .reference := by
        rw [castEq]
        intro casts
        cases ret with
        | object | array => exact (Option.some.inj kindEq).symm
        | _ => cases casts
      have overrides := overrides_fetch now.heap state.returnValue kindEq retEq castEq
      refine ⟨_, overrides, ?_⟩
      apply endsWithin_fetch known paramsEq retEq reference stretch
      · intro offset within
        exact inside offset (by omega)
      · omega
      · exact room
      · exact declared
      · exact held
      · exact wrapper

/-- Where the wrapper was cancelled, the run asks it and leaves the method. -/
theorem endsWithin_check {skip : Label}
    (stretch : Stretch frame.code frame.pc (splice.check slot skip))
    (inside : ∀ offset < (splice.check slot skip).length, positions (frame.pc + offset))
    (budget : now.executed + (splice.check slot skip).length ≤ interpreter.limits.budget)
    (room : frame.stack.length + 2 ≤ frame.body.maxStack)
    (declared : slot + 1 ≤ frame.body.maxLocals)
    (held : frame.locals[slot]? = some (.value (.ref handle)))
    (wrapper : now.heap.wrapper (.ref handle) = .ok (handle, state))
    (cancelled : state.cancelled = true) :
    ∃ result, Overrides now.heap splice.attachment.returnType state.returnValue result ∧
      ∃ count ≤ (splice.check slot skip).length,
        interpreter.EndsWithin (withWrappers other) positions (frame, now)
          (result, now.spent count) := by
  have lengthEq : (splice.check slot skip).length =
      (Splice.leave splice.attachment.returnType slot).length + 4 := by
    simp [Splice.check]
  rw [lengthEq] at inside budget ⊢
  have told : now.heap.isCancelled (.ref handle) = .ok true := by
    rw [Heap.isCancelled, wrapper, ← cancelled]
    rfl
  obtain ⟨load, ask⟩ := advances_ask interpreter other stretch (by omega)
    (Nat.le_trans (Nat.le_succ _) room) declared held told
  have tested : Frame.test
      { frame with pc := frame.pc + 3, stack := .value (.ofBool true) :: frame.stack } .ifZero =
        .ok ((1 : Int32) == 0, { frame with pc := frame.pc + 3 }) :=
    Frame.test_ifZero rfl
  have passes : interpreter.Advances (withWrappers other)
      ({ frame with pc := frame.pc + 2, stack := .value (.ofBool true) :: frame.stack },
        now.spent 2)
      ({ frame with pc := frame.pc + 3 }, now.spent 3) := by
    apply advances_of_pass
    · exact stretch.tail.tail.head
    · simp only [World.spent]
      omega
    · exact tested
  have leaves : ∃ result,
      Overrides (now.spent 3).heap splice.attachment.returnType state.returnValue result ∧
      ∃ count ≤ (Splice.leave splice.attachment.returnType slot).length,
        interpreter.EndsWithin (withWrappers other) positions
          ({ frame with pc := frame.pc + 3 }, now.spent 3)
          (result, (now.spent 3).spent count) := by
    apply endsWithin_leave
    · exact stretch.tail.tail.tail.left
    · intro offset within
      rw [Nat.add_assoc]
      exact inside (3 + offset) (by omega)
    · simp only [World.spent]
      omega
    · exact room
    · exact declared
    · exact held
    · exact wrapper
  obtain ⟨result, overrides, count, few, ends⟩ := leaves
  rw [World.spent_spent] at ends
  refine ⟨result, overrides, 3 + count, by omega, ?_⟩
  exact .goesOn (inside 0 (by omega)) load
    (.goesOn (inside 1 (by omega)) ask (.goesOn (inside 2 (by omega)) passes ends))

end Interpreter

/-- The wrapper of an injection decides what becomes of the method: the run leaves it if the wrapper
was cancelled by the time the dispatch call returns, and goes on to the instruction at the site if it
was not.  Where listeners may not cancel, the run never leaves the method. -/
structure Obeys (interpreter : Interpreter) (behaviour : Behaviour) (splice : Splice) (body : Body)
    (index : Nat) (run : List Instr) (slot? : Option Nat) (routine : MethodRef) (skip : Label)
    (woven : Body) : Prop where
  inserted : Splice.Inserted body index run woven
  /-- The dispatch call finds a wrapper on the heap that was not cancelled and stores nothing, and
  that can be cancelled if the injection says so. -/
  constructs : ∀ start call, start.1.Executes woven → start.1.pc = index →
    interpreter.AdvancesBy behaviour (splice.lead body.firstArgSlot slot?).length start call →
    call.1.code[call.1.pc]? = some (.call .static routine) ∧
      ∃ source, call.2.heap.get? ⟨start.2.heap.objects.size⟩ =
        some (.wrapper ⟨splice.attachment.wrapper, splice.event, source, splice.cancellable, false,
          none⟩)
  /-- A cancelled method is left from inside the run, with what overrides its result.  Behind the
  dispatch call only instructions of the run are executed. -/
  leaves : ∀ start call back state, start.1.Executes woven → start.1.pc = index →
    interpreter.AdvancesBy behaviour (splice.lead body.firstArgSlot slot?).length start call →
    interpreter.Advances behaviour call back →
    splice.cancellable = true →
    back.2.heap.get? ⟨start.2.heap.objects.size⟩ = some (.wrapper state) →
    state.cancelled = true →
    back.2.executed + (splice.settle slot? skip).length ≤ interpreter.limits.budget →
    ∃ result, Overrides back.2.heap body.signature.ret state.returnValue result ∧
      ∃ count ≤ (splice.settle slot? skip).length,
        interpreter.EndsWithin behaviour (fun pc => index ≤ pc ∧ pc < index + run.length) back
          (result, back.2.spent count) ∧
        ∃ least, ∀ steps, least ≤ steps →
          interpreter.run behaviour steps start.1 start.2 = (result, back.2.spent count)
  /-- A method that was not cancelled goes on at the site, whatever is stored in the wrapper, with
  the stack as it was below what the dispatch call returned. -/
  passes : ∀ start call back, start.1.Executes woven → start.1.pc = index →
    interpreter.AdvancesBy behaviour (splice.lead body.firstArgSlot slot?).length start call →
    interpreter.Advances behaviour call back →
    (splice.cancellable = true →
      back.2.heap.isCancelled start.2.nextRef = .ok false ∧
        back.2.executed + Interpreter.settling slot? ≤ interpreter.limits.budget) →
    ∃ result, interpreter.answer? behaviour call.1 call.2 = some (.ok result, back.2) ∧
      interpreter.AdvancesBy behaviour (Interpreter.settling slot?) back
        ({ start.1 with
            pc := index + run.length
            stack := Interpreter.resultCells result ++ start.1.stack
            locals := keptLocals start.1.locals slot? start.2.nextRef },
          back.2.spent (Interpreter.settling slot?))
  /-- Where listeners may not cancel, no instruction of the run leaves the method. -/
  stays : splice.cancellable = false → ∀ now : Frame × World, now.1.Executes woven →
    index ≤ now.1.pc → now.1.pc < index + run.length → ∀ result after,
      interpreter.step behaviour now.1 now.2 ≠ (.ok (.left result), after)

/-- The wrapper of an injection stands where the next object was to be allocated. -/
theorem get?_withWrapper (world : World) (splice : Splice) (source : Value) :
    (world.withWrapper splice source).heap.get? ⟨world.heap.objects.size⟩ =
      some (.wrapper ⟨splice.attachment.wrapper, splice.event, source, splice.cancellable, false,
        none⟩) := by
  unfold World.withWrapper
  rw [get?_allocated_of_lt _ _ (by simp [World.allocated])]
  exact get?_allocated world _

namespace Interpreter

variable {interpreter : Interpreter} {other : Behaviour} {splice : Splice} {body woven : Body}
  {index : Nat} {routine : MethodRef} {slot? : Option Nat} {skip : Label}
  {start call back : Frame × World} {state : WrapperState}

/-- The dispatch call finds a new wrapper on the heap. -/
theorem wrapper_of_arrival
    (inserted : Splice.Inserted body index
      (splice.instrs body.firstArgSlot routine slot? skip) woven)
    (executes : start.1.Executes woven) (atSite : start.1.pc = index)
    (arrives : interpreter.AdvancesBy (withWrappers other)
      (splice.lead body.firstArgSlot slot?).length start call) :
    call.1.code[call.1.pc]? = some (.call .static routine) ∧
      ∃ source, call.2.heap.get? ⟨start.2.heap.objects.size⟩ =
        some (.wrapper ⟨splice.attachment.wrapper, splice.event, source, splice.cancellable, false,
          none⟩) := by
  have stretch := stretch_of_inserted inserted executes
  rw [Splice.instrs_eq, ← atSite] at stretch
  obtain ⟨_, _, source, _, _, callEq⟩ := arrives.of_lead stretch.left
  rw [callEq]
  exact ⟨stretch.right.head, source, get?_withWrapper start.2 splice source⟩

/-- Behind a dispatch call that cancels, the run leaves the method. -/
theorem endsWithin_of_cancelled
    (inserted : Splice.Inserted body index
      (splice.instrs body.firstArgSlot routine slot? skip) woven)
    (slotsEq : routine.signature.totalSlots = splice.attachment.signature.totalSlots + 1)
    (executes : start.1.Executes woven) (atSite : start.1.pc = index)
    (arrives : interpreter.AdvancesBy (withWrappers other)
      (splice.lead body.firstArgSlot slot?).length start call)
    (returns : interpreter.Advances (withWrappers other) call back)
    (kept : slot?.isSome)
    (held : back.2.heap.get? ⟨start.2.heap.objects.size⟩ = some (.wrapper state))
    (cancelled : state.cancelled = true)
    (budget : back.2.executed + (splice.settle slot? skip).length ≤ interpreter.limits.budget) :
    ∃ result, Overrides back.2.heap splice.attachment.returnType state.returnValue result ∧
      ∃ count ≤ (splice.settle slot? skip).length,
        interpreter.EndsWithin (withWrappers other)
          (fun pc => index ≤ pc ∧
            pc < index + (splice.instrs body.firstArgSlot routine slot? skip).length)
          back (result, back.2.spent count) := by
  obtain ⟨slot, rfl⟩ := Option.isSome_iff_exists.mp kept
  have settleEq : splice.settle (some slot) skip = splice.check slot skip := rfl
  obtain ⟨room, hasLocal, value?, _, returned⟩ :=
    return_of_arrival inserted slotsEq executes atSite arrives returns
  have stretch := stretch_of_inserted inserted executes
  rw [Splice.instrs_eq, settleEq] at stretch ⊢
  rw [settleEq] at budget
  rcases back with ⟨back, answered⟩
  cases returned
  have shallow : (resultCells value?).length ≤ 2 := length_resultCells_le value?
  apply endsWithin_check
  · exact stretch.right.tail
  · intro offset within
    rw [List.length_append, List.length_cons]
    dsimp only
    omega
  · exact budget
  · rw [List.length_append]
    dsimp only
    omega
  · exact (hasLocal slot rfl).1
  · exact hasLocal.getElem?_keptLocals rfl _
  · simp only [Heap.wrapper, held]
  · exact cancelled

/-- Behind a dispatch call that does not cancel, the run goes on to the instruction at the site. -/
theorem advancesBy_of_uncancelled
    (inserted : Splice.Inserted body index
      (splice.instrs body.firstArgSlot routine slot? skip) woven)
    (slotsEq : routine.signature.totalSlots = splice.attachment.signature.totalSlots + 1)
    (executes : start.1.Executes woven) (atSite : start.1.pc = index)
    (arrives : interpreter.AdvancesBy (withWrappers other)
      (splice.lead body.firstArgSlot slot?).length start call)
    (returns : interpreter.Advances (withWrappers other) call back)
    (uncancelled : slot?.isSome → back.2.heap.isCancelled start.2.nextRef = .ok false)
    (budget : slot?.isSome → back.2.executed + settling slot? ≤ interpreter.limits.budget) :
    ∃ result, interpreter.answer? (withWrappers other) call.1 call.2 =
        some (.ok result, back.2) ∧
      interpreter.AdvancesBy (withWrappers other) (settling slot?) back
        ({ start.1 with
            pc := index + (splice.instrs body.firstArgSlot routine slot? skip).length
            stack := resultCells result ++ start.1.stack
            locals := keptLocals start.1.locals slot? start.2.nextRef },
          back.2.spent (settling slot?)) := by
  obtain ⟨room, hasLocal, result, answerEq, returned⟩ :=
    return_of_arrival inserted slotsEq executes atSite arrives returns
  refine ⟨result, answerEq, ?_⟩
  rcases back with ⟨back, answered⟩
  cases returned
  have shallow : (resultCells result).length ≤ 2 := length_resultCells_le result
  apply advancesBy_settling inserted
  · exact executes.withKept slot? start.2.nextRef _ _
  · rfl
  · intro _
    rw [List.length_append]
    dsimp only
    omega
  · intro slot kept
    exact ⟨(hasLocal slot kept).1, hasLocal.getElem?_keptLocals kept _⟩
  · exact uncancelled
  · exact budget

theorem ret_not_mem_instrs {kind? : Option Kind} :
    Instr.ret kind? ∉ splice.instrs body.firstArgSlot routine none skip := by
  have notSource : Instr.ret kind? ≠ splice.source := by
    unfold Splice.source
    split <;> simp
  simp [Splice.instrs, Splice.construct, Splice.dispatch, Run.loadArgs, notSource]

/-- Where the wrapper is not kept, no instruction of the run leaves the method. -/
theorem step_ne_left_of_inserted {now : Frame × World} {result : Option Value} {after : World}
    (inserted : Splice.Inserted body index
      (splice.instrs body.firstArgSlot routine none skip) woven)
    (executes : now.1.Executes woven) (behind : index ≤ now.1.pc)
    (within : now.1.pc < index + (splice.instrs body.firstArgSlot routine none skip).length) :
    interpreter.step (withWrappers other) now.1 now.2 ≠ (.ok (.left result), after) := by
  intro left
  obtain ⟨kind?, fetched⟩ := exists_ret_of_left left
  obtain ⟨offset, pcEq⟩ := Nat.exists_eq_add_of_le behind
  rw [pcEq] at fetched within
  have short : offset < (splice.instrs body.firstArgSlot routine none skip).length :=
    Nat.lt_of_add_lt_add_left within
  rw [stretch_of_inserted inserted executes offset short] at fetched
  exact ret_not_mem_instrs (List.mem_of_getElem? fetched)

end Interpreter

variable {splice : Splice} {body woven : Body} {index : Nat} {routine : MethodRef}

/-- An injection that was applied obeys its wrapper if it calls a routine that takes the wrapper and
the parameters of the method. -/
theorem obeys_of_apply (interpreter : Interpreter) (other : Behaviour) {report : Splice.Report}
    (slotsEq : routine.signature.totalSlots = splice.attachment.signature.totalSlots + 1)
    (returnEq : splice.attachment.returnType = body.signature.ret)
    (applied : splice.apply body index routine = (.ok report, woven)) :
    ∃ skip, Obeys interpreter (withWrappers other) splice body index
      (splice.instrs body.firstArgSlot routine (splice.wrapperLocal? body) skip)
      (splice.wrapperLocal? body) routine skip woven := by
  obtain ⟨_, skip, _, effect, _⟩ := Splice.applied_of_apply applied
  have inserted := effect.inserted
  have keptEq : (splice.wrapperLocal? body).isSome = splice.cancellable := by
    unfold Splice.wrapperLocal?
    cases splice.cancellable <;> rfl
  refine ⟨skip, ?_⟩
  generalize splice.wrapperLocal? body = slot? at inserted keptEq ⊢
  exact
    { inserted
      constructs := fun _ _ executes atSite arrives =>
        Interpreter.wrapper_of_arrival inserted executes atSite arrives
      leaves := by
        intro start call back state executes atSite arrives returns cancellable held cancelled
          budget
        obtain ⟨result, overrides, count, few, ends⟩ :=
          Interpreter.endsWithin_of_cancelled inserted slotsEq executes atSite arrives returns
            (keptEq.trans cancellable) held cancelled budget
        rw [returnEq] at overrides
        have path : interpreter.AdvancesBy (withWrappers other)
            ((splice.lead body.firstArgSlot slot?).length + 1) start back :=
          arrives.trans ⟨back, returns, rfl⟩
        exact ⟨result, overrides, count, few, ends, ends.exists_run_eq_of_advancesBy path⟩
      passes := by
        intro start call back executes atSite arrives returns uncancelled
        rw [← keptEq] at uncancelled
        exact Interpreter.advancesBy_of_uncancelled inserted slotsEq executes atSite arrives
          returns (fun kept => (uncancelled kept).1) (fun kept => (uncancelled kept).2)
      stays := by
        intro fixed now executes behind within result after
        rw [← keptEq, Option.isSome_eq_false_iff, Option.isNone_iff_eq_none] at fixed
        subst fixed
        exact Interpreter.step_ne_left_of_inserted inserted executes behind within }

end Weaver.Machine

namespace Weaver.Loom

open Machine

/-- A cancelled injection returns what overrides the result, and nothing else of the method runs.
Where an event that is attached to a body is injected into it, for every behaviour of all methods
other than those of wrappers, a wrapper that was cancelled when the dispatch call returns makes the
method return from inside the run; one that was not, or that cannot be, lets it go on at the site. -/
theorem inject_obeys (interpreter : Interpreter) (other : Behaviour) (loom after : Loom)
    (id : EventId) (index : Nat) (cancellable : Bool) (routine : RoutineId) (injections : Nat)
    (attached : (loom.events.get id).attachment =
      some { Attachment.ofBody loom.body with injections })
    (injected : loom.inject id index cancellable = (.ok routine, after)) :
    ∃ (splice : Splice) (skip : Label),
      splice = ⟨(loom.events.get id).name, { Attachment.ofBody loom.body with injections },
        cancellable⟩ ∧
      Obeys interpreter (withWrappers other) splice loom.body index
        (splice.instrs loom.body.firstArgSlot (after.proxies.get routine).ref
          (splice.wrapperLocal? loom.body) skip)
        (splice.wrapperLocal? loom.body) (after.proxies.get routine).ref skip after.body := by
  obtain ⟨⟨report, applied⟩, signatureEq⟩ := apply_of_inject attached injected
  have slotsEq : (after.proxies.get routine).ref.signature.totalSlots =
      loom.body.signature.totalSlots + 1 := by
    change (after.proxies.get routine).signature.totalSlots = _
    rw [signatureEq]
    exact Nat.add_comm _ _
  obtain ⟨skip, obeys⟩ := obeys_of_apply interpreter other slotsEq rfl applied
  exact ⟨_, skip, rfl, obeys⟩

/-- The behaviour of methods that cancel their first argument and store a long in it. -/
def overriding : Behaviour := fun _ args world =>
  match (args.head?.map fun wrapper => world.heap.cancelWith wrapper (.long 5)) with
  | some (.ok heap) => (.ok none, { world with heap })
  | some (.error fault) => (.error fault, world)
  | none => (.ok none, world)

/-- The countdown returns what its listener stored. -/
theorem inject_obeys_countdown :
    ((ofBody .countdown).inject ⟨0⟩ 4 true).1 = .ok ⟨1⟩ ∧
      ∃ last least, ∀ steps, least ≤ steps →
        Interpreter.run ⟨.empty, .standard⟩ (withWrappers overriding) steps countdownEntry.1
          countdownEntry.2 = (.ok (some (.long 5)), last) := by
  have injected : ((ofBody .countdown).inject ⟨0⟩ 4 true).1 = .ok ⟨1⟩ := by decide +kernel
  obtain ⟨splice, skip, rfl, obeys⟩ := inject_obeys ⟨.empty, .standard⟩ overriding
    (ofBody .countdown) ((ofBody .countdown).inject ⟨0⟩ 4 true).2 ⟨0⟩ 4 true ⟨1⟩ 0 rfl
    (Prod.ext injected rfl)
  have follows : (Interpreter.follow ⟨.empty, .standard⟩ (withWrappers overriding) 10
      countdownEntry).isSome = true := by decide +kernel
  obtain ⟨back, followed⟩ := Option.isSome_iff_exists.mp follows
  have told : (Interpreter.follow ⟨.empty, .standard⟩ (withWrappers overriding) 10
      countdownEntry).map (fun now => (now.2.heap.get? ⟨0⟩, now.2.executed)) =
        some (some (.wrapper ⟨.returning, "e", .null, true, true, some (.long 5)⟩), 10) := by
    decide +kernel
  rw [followed, Option.map_some] at told
  obtain ⟨held, executed⟩ := Prod.mk.inj (Option.some.inj told)
  have whole : Interpreter.AdvancesBy ⟨.empty, .standard⟩ (withWrappers overriding) (9 + 1)
      countdownEntry back := Interpreter.advancesBy_iff_follow.mpr followed
  obtain ⟨call, arrives, next, returns, rfl⟩ := whole.split
  have budget : 10 + 7 ≤ Limits.standard.budget := by decide
  rw [← executed] at budget
  obtain ⟨result, overrides, count, _, _, runs⟩ := obeys.leaves countdownEntry call next _
    ⟨rfl, rfl, rfl, by decide +kernel⟩ rfl arrives returns rfl held rfl
    (Nat.le_trans (Nat.add_le_add_left (Nat.le_of_eq rfl) _) budget)
  refine ⟨injected, next.2.spent count, ?_⟩
  cases overrides with
  | nothing void => cases void
  | stored fits => exact runs
  | misfit _ misfits _ =>
      have fits : Fits next.2.heap Ty.long (.long 5) := ⟨rfl, fun reference => by cases reference⟩
      exact absurd fits misfits

end Weaver.Loom
