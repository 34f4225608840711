import Weaver.Proofs.Machine.Calls
import Weaver.Proofs.Redirect.Emitted

/-!
# Calling the handlers

A frame of a redirected body keeps the arguments in its locals and has nothing on its stack whenever
the code for a handler starts.  That code calls the handler with all arguments; by induction on the
handlers that are left, they are called in their order, each of them once.
-/

namespace Weaver.Redirect

open Machine Machine.Interpreter

/-- A handler that is called with the arguments answers with a result of the type.  One instruction
for each argument and the call are within the budget. -/
structure Answers (limits : Limits) (behaviour : Behaviour) (ret : Ty) (args : List Value)
    (handler : MethodRef) (world : World) (result : Option Value) (answered : World) : Prop where
  budget : world.executed + (args.length + 1) ≤ limits.budget
  answer : behaviour handler args (world.spent (args.length + 1)) = (.ok result, answered)
  declared : result.map Value.kind = ret.kind?

/-- The handlers answer one after the other, each in the world that those before it left.  The
instructions that discard the slots of a result are within the budget. -/
inductive Served (limits : Limits) (behaviour : Behaviour) (ret : Ty) (args : List Value) :
    List MethodRef → World → World → Prop
  | done {world} : Served limits behaviour ret args [] world world
  | next {handler rest world result answered last}
      (answers : Answers limits behaviour ret args handler world result answered)
      (budget : answered.executed + ret.slots ≤ limits.budget)
      (later : Served limits behaviour ret args rest (answered.spent ret.slots) last) :
      Served limits behaviour ret args (handler :: rest) world last

/-- A frame that can call handlers: the arguments are in its locals, and nothing is on its stack. -/
structure Ready (signature : Signature) (args : List Value) (frame : Frame) : Prop where
  empty : frame.stack = []
  holds : Holds frame.locals 0 args
  inside : (args.map Value.slots).sum ≤ frame.body.maxLocals
  narrow : frame.body.maxLocals ≤ slotLimit
  hasRoom : HasRoom signature frame.body.maxStack
  kinds : signature.params.map Ty.kind? = args.map fun value => some value.kind

variable {interpreter : Interpreter} {behaviour : Behaviour} {signature : Signature}
  {args : List Value} {frame : Frame} {world : World} {handler : MethodRef}

theorem Ready.withPc (ready : Ready signature args frame) (pc : Nat) :
    Ready signature args { frame with pc } :=
  ⟨ready.empty, ready.holds, ready.inside, ready.narrow, ready.hasRoom, ready.kinds⟩

theorem length_resultCells {result : Option Value} {ret : Ty}
    (declared : result.map Value.kind = ret.kind?) : (resultCells result).length = ret.slots := by
  rw [Ty.slots, ← declared]
  cases result with
  | none => rfl
  | some value => exact value.length_cells

/-- The code for a handler calls it with all arguments and leaves its result on the stack. -/
theorem makes_of_callOf {result : Option Value} {answered : World}
    (ready : Ready signature args frame) (signatureEq : handler.signature = signature)
    (stretch : Stretch frame.code frame.pc (callOf signature handler))
    (answers : Answers interpreter.limits behaviour signature.ret args handler world result
      answered) :
    interpreter.Makes behaviour [(handler, args)] (frame, world)
      ({ frame with
          pc := frame.pc + (callOf signature handler).length
          stack := resultCells result },
        answered) := by
  have loadsLength := length_loadArgs 0 ready.kinds
  have slotsEq : (args.map Value.slots).sum = signature.totalSlots := by
    rw [Signature.totalSlots_eq_sum]
    exact sum_slots_of_kinds ready.kinds
  have budget := answers.budget
  let loaded : Frame :=
    { frame with pc := frame.pc + args.length, stack := args.reverse.flatMap Value.cells }
  have loads : interpreter.Makes behaviour [] (frame, world) (loaded, world.spent args.length) := by
    have pushed : loaded.stack = args.reverse.flatMap Value.cells ++ frame.stack := by
      rw [ready.empty, List.append_nil]
    change interpreter.Makes behaviour [] _ ({ frame with
      pc := frame.pc + args.length, stack := loaded.stack }, _)
    rw [pushed]
    apply makes_of_loads ready.kinds ready.holds
    · rw [Nat.zero_add]
      exact ready.inside
    · exact ready.narrow
    · rw [ready.empty, slotsEq, List.length_nil, Nat.zero_add]
      exact ready.hasRoom.arguments
    · exact stretch.left
    · omega
  have behindLoads : Stretch loaded.code loaded.pc [.call .static handler] := by
    have whole := stretch.right
    rw [loadsLength] at whole
    exact whole
  have calls : interpreter.Makes behaviour [(handler, args)] (loaded, world.spent args.length)
      (loaded.behind (resultCells result), answered) := by
    have roomy : ([] : List Slot).length + (resultCells result).length ≤ loaded.body.maxStack := by
      rw [length_resultCells answers.declared, List.length_nil, Nat.zero_add]
      exact ready.hasRoom.result
    rw [← List.append_nil (resultCells result)]
    apply makes_of_call behindLoads.head
    · rw [signatureEq]
      exact ready.kinds
    · exact (List.append_nil _).symm
    · simp only [World.spent]
      omega
    · exact answers.answer
    · exact roomy
  have whole := loads.trans calls
  simpa [callOf, loadsLength, loaded, Frame.behind, Nat.add_assoc] using whole

/-- A result is discarded, whether it is there or not. -/
theorem makes_of_discardResult {result : Option Value} {ret : Ty}
    (stackEq : frame.stack = resultCells result) (declared : result.map Value.kind = ret.kind?)
    (stretch : Stretch frame.code frame.pc (discardResult ret))
    (budget : world.executed + ret.slots ≤ interpreter.limits.budget) :
    interpreter.Makes behaviour [] (frame, world)
      ({ frame with pc := frame.pc + ret.slots, stack := [] }, world.spent ret.slots) := by
  have cellsLength := length_resultCells declared
  rw [discardResult_eq, ← cellsLength] at stretch
  rw [← cellsLength] at budget ⊢
  exact makes_of_pops stretch (by rw [stackEq, List.append_nil]) budget

/-- The code for a handler stands before that for those behind it. -/
theorem prependInstrs_cons (signature : Signature) (handler : MethodRef) (rest : List MethodRef) :
    prependInstrs signature (handler :: rest) =
      callOf signature handler ++ (discardResult signature.ret ++ prependInstrs signature rest) := by
  rw [prependInstrs, List.flatMap_cons, List.append_assoc]
  rfl

/-- Handlers that answer are called in their order, each once with all arguments, and nothing is left
of their results. -/
theorem Served.makes {handlers : List MethodRef} {last : World}
    (served : Served interpreter.limits behaviour signature.ret args handlers world last)
    (ready : Ready signature args frame)
    (signatures : ∀ handler ∈ handlers, handler.signature = signature)
    (stretch : Stretch frame.code frame.pc (prependInstrs signature handlers)) :
    interpreter.Makes behaviour (handlers.map (·, args)) (frame, world)
      ({ frame with pc := frame.pc + (prependInstrs signature handlers).length }, last) := by
  generalize retEq : signature.ret = ret at served
  induction served generalizing frame with
  | done => exact .done
  | @next handler rest world result answered last answers budget later ih =>
      subst retEq
      rw [prependInstrs_cons] at stretch
      have calls := makes_of_callOf ready (signatures handler List.mem_cons_self)
        stretch.left answers
      have discards : interpreter.Makes behaviour []
          ({ frame with
              pc := frame.pc + (callOf signature handler).length
              stack := resultCells result },
            answered) _ :=
        makes_of_discardResult rfl answers.declared stretch.right.left budget
      have behind := stretch.right.right
      rw [discardResult_eq, List.length_replicate] at behind
      have emptied : Ready signature args
          { frame with
            pc := frame.pc + (callOf signature handler).length + signature.ret.slots
            stack := [] } :=
        { ready with empty := rfl }
      have rests := ih emptied (fun other member => signatures other (List.mem_cons_of_mem _ member))
        behind
      have whole := (calls.trans discards).trans rests
      rw [← ready.empty] at whole
      rw [prependInstrs_cons, discardResult_eq]
      simpa [Nat.add_assoc] using whole

/-- A method returns the result on its stack, or none if it returns nothing. -/
theorem step_of_result {result : Option Value} {ret : Ty}
    (fetched : frame.code[frame.pc]? = some (.ret ret.kind?))
    (stackEq : frame.stack = resultCells result) (declared : result.map Value.kind = ret.kind?)
    (budget : world.executed < interpreter.limits.budget) :
    interpreter.step behaviour frame world = (.ok (.left result), world.counted) := by
  rw [← declared] at fetched
  cases result with
  | none =>
      rw [step_eq_finish fetched budget]
      rfl
  | some value => exact step_of_ret fetched budget rfl (stackEq.trans (List.append_nil _).symm)

/-- Handlers that answer are called in their order, each once with all arguments, and the result of the
last one is returned. -/
theorem makes_of_replaceInstrs {front : List MethodRef} {final : MethodRef} {middle : World}
    {result : Option Value} {answered : World}
    (served : Served interpreter.limits behaviour signature.ret args front world middle)
    (answers : Answers interpreter.limits behaviour signature.ret args final middle result answered)
    (budget : answered.executed < interpreter.limits.budget) (ready : Ready signature args frame)
    (signatures : ∀ handler ∈ front ++ [final], handler.signature = signature)
    (stretch : Stretch frame.code frame.pc (replaceInstrs signature (front ++ [final]))) :
    ∃ leaving, interpreter.Makes behaviour ((front ++ [final]).map (·, args)) (frame, world)
        (leaving, answered) ∧
      interpreter.step behaviour leaving answered = (.ok (.left result), answered.counted) := by
  rw [replaceInstrs_concat, List.append_assoc] at stretch
  have before := served.makes ready
    (fun handler member => signatures handler (List.mem_append_left _ member)) stretch.left
  have last := makes_of_callOf (ready.withPc (frame.pc + (prependInstrs signature front).length))
    (signatures final (List.mem_append_right _ List.mem_cons_self)) stretch.right.left answers
  have whole := before.trans last
  rw [List.map_append]
  exact ⟨_, whole, step_of_result stretch.right.right.head rfl answers.declared budget⟩

end Weaver.Redirect
