import Weaver.Proofs.Machine.Stores
import Weaver.Proofs.Splice.Beyond

/-!
# Depths of executions within any bounds

A body may declare less than its code needs.  A step of such a body that goes on is a step of the body
that declares enough, so the depths of the analysis hold along every execution that goes on, whatever
the body declares.
-/

namespace Weaver.Splice

/-- The body with bounds that are no lower than the given ones. -/
def widened (body : Body) (stack locals : Nat) : Body :=
  { body with maxStack := max body.maxStack stack, maxLocals := max body.maxLocals locals }

theorem inserted_widened {body : Body} (unique : Code.UniqueLabels body.code.instrs)
    (stack locals : Nat) : Inserted body 0 [] (widened body stack locals) :=
  .nil unique (Nat.le_max_left _ _) (Nat.le_max_left _ _)

end Weaver.Splice

namespace Weaver.Machine.Interpreter

open Splice Body

variable {interpreter : Interpreter} {behaviour : Behaviour} {body woven : Body}
  {frame next : Frame} {world after : World} {index depth : Nat} {instr : Instr}

/-- A call that is carried out finds all of its arguments on the stack. -/
theorem callSlots_le_of_advances
    (step : interpreter.Advances behaviour (frame, world) (next, after))
    (fetched : frame.code[frame.pc]? = some instr) : instr.callSlots ≤ frame.stack.length := by
  obtain ⟨_, finished⟩ := (advances_iff fetched).mp step
  have sameStack : ({ frame with pc := frame.pc + 1 } : Frame).stack = frame.stack := rfl
  rw [← sameStack]
  cases instr with
  | call mode method =>
      cases popped : Frame.popArgs { frame with pc := frame.pc + 1 } method mode.hasReceiver with
      | error fault =>
          simp [Frame.act, Frame.prepareCall, popped, bind, Except.bind, finish] at finished
      | ok outcome => exact Frame.slots_le_of_popArgs popped
  | guardedCall guarded =>
      cases popped : Frame.popArgs { frame with pc := frame.pc + 1 } guarded.target false with
      | error fault => simp [Frame.act, popped, Except.map, finish] at finished
      | ok outcome => exact Frame.slots_le_of_popArgs popped
  | _ => exact Nat.zero_le _

/-- An action that is mirrored asks for the same call, unless it goes beyond declared bounds. -/
theorem reply?_of_tracks {extra : Array Slot} {place : Nat → Nat}
    {result other : Except Fault Action × World}
    (acted : Tracks (Splice.Roomier body woven) (Action.Executes body) (Action.image woven extra place) result other)
    (finished : interpreter.finish behaviour result = (.ok (.running next), after)) :
    interpreter.reply? behaviour other = interpreter.reply? behaviour result := by
  rcases result with ⟨fault | action, last⟩
  · cases finished
  · rw [acted.1]
    cases action <;> rfl

/-- A step that goes on is given the same beside the woven code. -/
theorem GivesDeclared.image {run : List Instr} {extra : Array Slot}
    (declared : interpreter.GivesDeclared behaviour frame world) (executes : frame.Executes body)
    (inserted : Inserted body index run woven) (fetched : frame.code[frame.pc]? = some instr)
    (step : interpreter.Advances behaviour (frame, world) (next, after)) :
    interpreter.GivesDeclared behaviour
      (frame.image woven extra (relocated index run.length)) world := by
  have sameInstr : (frame.image woven extra (relocated index run.length)).code[
      (frame.image woven extra (relocated index run.length)).pc]? = frame.code[frame.pc]? := by
    rw [executes.code_eq]
    simpa [Frame.image] using inserted.fetch_relocated frame.pc
  have sameAnswer : interpreter.answer? behaviour
      (frame.image woven extra (relocated index run.length)) world =
        interpreter.answer? behaviour frame world := by
    unfold answer?
    rw [sameInstr, fetched]
    exact reply?_of_tracks (executes.act_next inserted world.counted fetched)
      ((advances_iff fetched).mp step).2
  constructor
  · intro op field value atField
    exact declared.fields op field value (sameInstr ▸ atField)
  · intro ret result last returns answered
    exact declared.results ret result last (sameInstr ▸ returns) (sameAnswer ▸ answered)

/-- A step that goes on goes where the flow of the code goes, whatever the body declares. -/
theorem follows_of_advances (executes : frame.Executes body)
    (stands : frame.Stands body index depth) (within : frame.Within)
    (narrow : body.maxStack ≤ slotLimit) (balanced : Balanced body.code.instrs)
    (reached : Reaches body.code.instrs index depth)
    (step : interpreter.AdvancesDeclared behaviour (frame, world) (next, after)) :
    next.Executes body ∧ next.Follows body index depth := by
  obtain ⟨declared, advances⟩ := step
  have stepEq : interpreter.step behaviour frame world = (.ok (.running next), after) := advances
  obtain ⟨instr, here⟩ := balanced.exists_instr reached
  have fetched : frame.code[frame.pc]? = some instr := by
    rw [stands.code_eq, stands.pc_eq]
    simpa using here
  have limited : instr.callSlots ≤ slotLimit := by
    have held := callSlots_le_of_advances advances fetched
    have bounded : frame.stack.length ≤ body.maxStack := executes.body_eq ▸ within
    omega
  -- The same step in the body that declares what this instruction needs.
  let peak := max depth (instr.effect.slotsAfter depth)
  have inserted : Inserted body 0 [] (widened body peak instr.localEnd) :=
    inserted_widened balanced.labels _ _
  have kept : ¬ interpreter.Overruns behaviour frame world := by
    rintro ⟨fault, last, failed, _⟩
    cases failed.symm.trans stepEq
  have mirrors : MirrorsStep body _ #[] _ _ _ := step_image executes inserted kept
  obtain ⟨wideEq, executing⟩ := mirrors
  rw [stepEq] at wideEq executing
  have goesOn : next.Executes body := executing _ rfl
  have covers : Covers (widened body peak instr.localEnd) index depth instr :=
    ⟨balanced, reached, here, Nat.le_max_right _ _, Nat.le_max_right _ _, limited⟩
  have standsWide : (frame.image (widened body peak instr.localEnd) #[]
      (relocated 0 0)).Stands (widened body peak instr.localEnd) index depth := by
    refine ⟨rfl, rfl, labelPositions_eq_labels inserted.uniqueLabels, ?_, stands.paired,
      stands.depth_eq⟩
    simp [Frame.image, relocated, stands.pc_eq]
  obtain ⟨state, follows, standsNext⟩ := (step_of_covers standsWide covers
    (declared.image executes inserted fetched advances)).1 _ _ wideEq
  refine ⟨goesOn, state, follows, goesOn.body_eq, goesOn.code_eq, ?_, ?_, standsNext.paired,
    standsNext.depth_eq⟩
  · rw [goesOn.labels_eq]
    exact labelPositions_eq_labels balanced.labels
  · have place := standsNext.pc_eq
    simpa [Frame.image, landing, relocated, entrance] using place

/-- Along every execution that goes on the depths of the analysis hold, whatever the body declares, and
what it stores are stores of the body. -/
theorem Stores.stands {stores : List (Nat × Kind)} {first last : Frame}
    (executed : interpreter.Stores behaviour stores first last) (executes : first.Executes body)
    (stands : first.Stands body 0 0) (narrow : body.maxStack ≤ slotLimit)
    (balanced : Balanced body.code.instrs) :
    last.Executes body ∧ last.Within ∧
      (∃ index depth, Reaches body.code.instrs index depth ∧ last.Stands body index depth) ∧
      ∀ store ∈ stores, Instr.store store.2 store.1 ∈ body.code.instrs := by
  induction executed with
  | start =>
      refine ⟨executes, ?_, ⟨0, 0, reaches_start _, stands⟩, List.forall_mem_nil _⟩
      unfold Frame.Within
      rw [stands.depth_eq]
      exact Nat.zero_le _
  | @step stores _ frame _ _ _ earlier advances ih =>
      obtain ⟨executing, within, ⟨index, depth, reached, standsHere⟩, members⟩ :=
        ih executes stands
      obtain ⟨goesOn, state, fills, standsNext⟩ :=
        follows_of_advances executing standsHere within narrow balanced reached advances
      have withinNext : Frame.Within _ := (Advances.writes advances.2).2 within
      -- what a step that goes on leaves on the stack was found to fit there
      have fits : state.2 ≤ slotLimit := by
        rw [← standsNext.depth_eq]
        exact Nat.le_trans (goesOn.body_eq ▸ withinNext) narrow
      refine ⟨goesOn, withinNext,
        ⟨state.1, state.2, reached.follow (fills.follows fits), standsNext⟩, ?_⟩
      intro store member
      rcases List.mem_append.mp member with before | here
      · exact members store before
      · apply Frame.mem_of_store? (Option.mem_toList.mp here)
        rw [executing.code_eq]

end Weaver.Machine.Interpreter
