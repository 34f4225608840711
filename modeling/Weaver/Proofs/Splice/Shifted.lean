import Weaver.Proofs.Splice.Widened

/-!
# Code behind a run

A run that is put before the first instruction of a body shifts all of its code.  Behind the run the
two execute in lock-step from equal stacks and locals, as long as the depths of the body are known.
If the woven code declares no more stack than the body, both overflow alike.  If it declares more, the
body never overflows.
-/

namespace Weaver.Machine

namespace Frame

variable {body woven : Body} {frame : Frame} {extra : Array Slot} {run : List Instr}

theorem relocated_zero (shift : Nat) : Splice.relocated 0 shift = (· + shift) := by
  funext position
  simp [Splice.relocated]

/-- Every instruction behind a run does what it does in the body. -/
theorem Executes.act_shifted (executes : frame.Executes body)
    (inserted : Splice.Inserted body 0 run woven) (world : World) {instr : Instr}
    (member : instr ∈ body.code.instrs) :
    Tracks (Splice.Roomier body woven) (Action.Executes body) (Action.image woven extra (· + run.length))
      (frame.act world instr) ((frame.image woven extra (· + run.length)).act world instr) := by
  cases targetEq : instr.target? with
  | none => exact executes.act inserted.toWidens world targetEq
  | some label =>
      cases instr with
      | jump cond target =>
          apply Mirrors.proceeds
          apply (executes.test inserted.toWidens cond).bind
          rintro ⟨taken, under⟩ below
          cases taken with
          | false => exact ⟨rfl, below⟩
          | true =>
              have goes : Mirrors (Splice.Roomier body woven) (Frame.Executes body) (Frame.image woven extra _)
                  (Frame.goto under target)
                  (Frame.goto (Frame.image woven extra (· + run.length) under) target) :=
                below.goto inserted member rfl
              rw [relocated_zero] at goes
              exact goes
      | _ => cases targetEq

end Frame

end Weaver.Machine

namespace Weaver.Splice

/-- A body of known depths with a run before its first instruction. -/
structure Shifted (body : Body) (depths : List (Option Nat)) (run : List Instr) (woven : Body) :
    Prop extends Inserted body 0 run woven where
  stacked : body.Stacked depths
  narrow : body.maxStack ≤ slotLimit
  locals_eq : woven.maxLocals = body.maxLocals
  countable : body.maxStack < woven.maxStack → Body.Countable body.code.instrs

end Weaver.Splice

namespace Weaver.Machine

namespace Interpreter

variable {interpreter : Interpreter} {behaviour : Behaviour} {body woven : Body}
  {depths : List (Option Nat)} {frame : Frame} {world : World} {run : List Instr}

/-- A frame that stands at a depth of the analysis keeps within the declared stack. -/
theorem within_of_stands {index depth : Nat} (stacked : body.Stacked depths)
    (stands : frame.Stands body index depth)
    (reached : Body.Reaches body.code.instrs index depth) : frame.Within := by
  obtain ⟨instr, here⟩ := stacked.balanced.exists_instr reached
  unfold Frame.Within
  rw [stands.depth_eq, stands.body_eq]
  exact (Nat.le_max_left _ _).trans (stacked.peak_le reached here)

/-- Where the depths are known, the code behind the run takes every step of the body. -/
theorem step_shifted {index depth : Nat} (shifted : Splice.Shifted body depths run woven)
    (executes : frame.Executes body) (stands : frame.Stands body index depth)
    (reached : Body.Reaches body.code.instrs index depth)
    (declared : interpreter.GivesDeclared behaviour frame world) :
    MirrorsStep body woven #[] (· + run.length) (interpreter.step behaviour frame world)
      (interpreter.step behaviour (frame.image woven #[] (· + run.length)) world) := by
  have inserted := shifted.toInserted
  obtain ⟨instr, here⟩ := shifted.stacked.balanced.exists_instr reached
  have fetched : frame.code[frame.pc]? = some instr := by
    rw [stands.code_eq, stands.pc_eq]
    simpa using here
  have sameInstr : (frame.image woven #[] (· + run.length)).code[
      (frame.image woven #[] (· + run.length)).pc]? = some instr := by
    have moved := inserted.fetch_relocated frame.pc
    rw [Frame.relocated_zero, stands.pc_eq, here] at moved
    simpa [Frame.image, stands.pc_eq] using moved
  have next := executes.withPc (frame.pc + 1)
  have placeEq : (frame.image woven #[] (· + run.length)).pc + 1 = frame.pc + 1 + run.length :=
    Nat.add_right_comm _ _ _
  have acted : Tracks (Splice.Roomier body woven) (Action.Executes body)
      (Action.image woven #[] (· + run.length))
      (Frame.act { frame with pc := frame.pc + 1 } world.counted instr)
      (Frame.act { frame.image woven #[] (· + run.length) with
        pc := (frame.image woven #[] (· + run.length)).pc + 1 } world.counted instr) := by
    rw [placeEq]
    exact next.act_shifted inserted world.counted (List.mem_of_getElem? here)
  by_cases more : body.maxStack < woven.maxStack
  · -- The body never overflows, and goes beyond its bounds only where the woven code fails alike.
    have peak := shifted.stacked.slots_le (shifted.countable more) reached here
    by_cases fits : instr.localEnd ≤ body.maxLocals ∧ instr.callSlots ≤ slotLimit
    · have covers : body.Covers index depth instr :=
        ⟨shifted.stacked.balanced, reached, here, peak, fits.1, fits.2⟩
      obtain ⟨_, own⟩ := step_of_covers stands covers declared
      have kept : ¬ interpreter.Overruns behaviour frame world := by
        rintro ⟨fault, after, failed, exceeds, unanswered⟩
        exact unanswered (own fault after failed (Fault.isBookkeeping_of_exceeds exceeds))
      exact step_of_tracks inserted.toWidens fetched sameInstr acted fun _ => kept
    · have beyond : body.maxLocals < instr.localEnd ∨ slotLimit < instr.callSlots := by omega
      have short : frame.stack.length ≤ slotLimit := by
        rw [stands.depth_eq]
        exact ((Nat.le_max_left _ _).trans peak).trans shifted.narrow
      obtain ⟨fault, failed, otherFailed⟩ := next.act_beyond inserted.toWidens
        shifted.locals_eq short beyond world.counted
      have stepEq : interpreter.step behaviour frame world = _ := step_eq fetched
      have otherEq : interpreter.step behaviour (frame.image woven #[] (· + run.length)) world = _ :=
        step_eq sameInstr
      rw [failed] at stepEq
      rw [placeEq] at otherEq
      change _ = if _ then _ else interpreter.finish behaviour
        (Frame.act (Frame.image woven #[] (· + run.length) { frame with pc := frame.pc + 1 })
          world.counted instr) at otherEq
      rw [otherFailed] at otherEq
      rw [stepEq, otherEq]
      split
      · exact ⟨rfl, by rintro _ ⟨⟩⟩
      · exact ⟨rfl, by rintro _ ⟨⟩⟩
  · have tight : ¬ Splice.Roomier body woven := by
      rintro (stack | locals)
      · exact more stack
      · exact Nat.lt_irrefl _ (shifted.locals_eq ▸ locals)
    exact step_of_tracks inserted.toWidens fetched sameInstr acted fun roomier =>
      absurd roomier tight

/-- A state of the body at a depth of the analysis, from which calls and fields give what they
declare. -/
structure Regular (interpreter : Interpreter) (behaviour : Behaviour) (body : Body)
    (now : Frame × World) : Prop where
  executes : now.1.Executes body
  stands : ∃ index depth, Body.Reaches body.code.instrs index depth ∧
    now.1.Stands body index depth
  declared : ∀ state, Relation.ReflTransGen (interpreter.Advances behaviour) now state →
    interpreter.GivesDeclared behaviour state.1 state.2

theorem Regular.mirrorsStep {now : Frame × World}
    (regular : interpreter.Regular behaviour body now)
    (shifted : Splice.Shifted body depths run woven) :
    MirrorsStep body woven #[] (· + run.length) (interpreter.step behaviour now.1 now.2)
      (interpreter.step behaviour (now.1.image woven #[] (· + run.length)) now.2) := by
  obtain ⟨index, depth, reached, stands⟩ := regular.stands
  exact step_shifted shifted regular.executes stands reached (regular.declared now .refl)

/-- A step leads to such a state again. -/
theorem Regular.advances {now next : Frame × World}
    (regular : interpreter.Regular behaviour body now)
    (shifted : Splice.Shifted body depths run woven)
    (step : interpreter.Advances behaviour now next) :
    interpreter.Regular behaviour body next := by
  obtain ⟨index, depth, reached, stands⟩ := regular.stands
  have within := within_of_stands shifted.stacked stands reached
  obtain ⟨executes, state, fills, standsNext⟩ := follows_of_advances regular.executes stands within
    shifted.narrow shifted.stacked.balanced reached ⟨regular.declared now .refl, step⟩
  have fits : state.2 ≤ slotLimit := by
    rw [← standsNext.depth_eq]
    have withinNext : Frame.Within _ := (Advances.writes step).2 within
    exact (executes.body_eq ▸ withinNext : _ ≤ body.maxStack).trans shifted.narrow
  refine ⟨executes, ⟨state.1, state.2, reached.follow (fills.follows fits), standsNext⟩, ?_⟩
  exact fun later path => regular.declared later (.head step path)

/-- The code behind the run comes to the states to which the body comes, in as many steps. -/
theorem follow_shifted (shifted : Splice.Shifted body depths run woven) (count : Nat)
    {now : Frame × World} (regular : interpreter.Regular behaviour body now) :
    interpreter.follow behaviour count (now.1.image woven #[] (· + run.length), now.2) =
      (interpreter.follow behaviour count now).map
        (Prod.map (Frame.image woven #[] (· + run.length)) id) := by
  induction count generalizing now with
  | zero => rfl
  | succ count ih =>
      unfold follow
      rw [(regular.mirrorsStep shifted).1]
      rcases stepEq : interpreter.step behaviour now.1 now.2 with ⟨fault | progress, after⟩
      · rfl
      · cases progress with
        | left result => rfl
        | running next =>
            have step : interpreter.Advances behaviour now (next, after) := stepEq
            exact ih (regular.advances shifted step)

/-- The code behind the run ends with what the body ends with, after as many steps. -/
theorem run_shifted (shifted : Splice.Shifted body depths run woven) (steps : Nat)
    {now : Frame × World} (regular : interpreter.Regular behaviour body now) :
    interpreter.run behaviour steps (now.1.image woven #[] (· + run.length)) now.2 =
      interpreter.run behaviour steps now.1 now.2 := by
  induction steps generalizing now with
  | zero => rfl
  | succ steps ih =>
      unfold Interpreter.run
      rw [(regular.mirrorsStep shifted).1]
      rcases stepEq : interpreter.step behaviour now.1 now.2 with ⟨fault | progress, after⟩
      · rfl
      · cases progress with
        | left result => rfl
        | running next =>
            have step : interpreter.Advances behaviour now (next, after) := stepEq
            exact ih (regular.advances shifted step)

end Interpreter

end Weaver.Machine
