import Weaver.Proofs.Splice.Tracked

/-!
# Control flow around an inserted run

Control comes to a relocated instruction exactly as it came to the instruction, and into the run where
it fell through to the site.  So a body whose depths can be told keeps them, and the highest depth is
that of the body or one in the run above the site.
-/

namespace Weaver.Splice

open Body

variable {body woven : Body} {index : Nat} {run : List Instr}

theorem strictMono_relocated (index shift : Nat) : StrictMono (relocated index shift) := by
  intro first second before
  unfold relocated
  split <;> split <;> omega

theorem relocated_ne_inside {shift offset : Nat} (within : offset < shift) (position : Nat) :
    relocated index shift position ≠ index + offset := by
  unfold relocated
  split <;> omega

/-- Control comes to the position from the start or from the instruction in front of it. -/
inductive FallsTo (instrs : List Instr) : Nat → Nat → Prop
  | start : FallsTo instrs 0 0
  | next {position depth instr} (reached : Reaches instrs position depth)
      (here : instrs[position]? = some instr) (enough : instr.effect.pops ≤ depth)
      (falls : instr.fallsThrough = true) :
      FallsTo instrs (position + 1) (instr.effect.after depth)

theorem FallsTo.reaches {instrs : List Instr} {position depth : Nat}
    (falls : FallsTo instrs position depth) : Reaches instrs position depth := by
  cases falls with
  | start => exact reaches_start instrs
  | next reached here enough falls => exact reached.follow (.next here enough falls)

/-- An instruction that finds what it pops leaves alone what lies below, if the sum can be counted. -/
theorem after_add {effect : Effect} {below depth : Nat} (enough : effect.pops ≤ depth)
    (fits : below + effect.after depth ≤ slotLimit) :
    effect.after (below + depth) = below + effect.after depth := by
  have slots : effect.slotsAfter (below + depth) = effect.slotsAfter depth + below := by
    unfold Effect.slotsAfter
    omega
  calc effect.after (below + depth)
      = wrapSlots (effect.after depth + below) := by
        rw [Effect.after, slots, Effect.after, wrapSlots_add]
    _ = below + effect.after depth := by
        rw [Nat.add_comm]
        exact wrapSlots_of_le fits

/-- The depths of a run can be counted above those with which control comes to the site. -/
def HasRoom (body : Body) (index : Nat) (run : List Instr) : Prop :=
  ∀ below, Reaches body.code.instrs index below → ∀ height ∈ heights run,
    below + height ≤ slotLimit

theorem HasRoom.of_peak {depth peak : Nat} (balanced : Balanced body.code.instrs)
    (reached : Reaches body.code.instrs index depth) (greatest : IsGreatest (heights run) peak)
    (narrow : depth + peak ≤ slotLimit) : HasRoom body index run := by
  intro below atSite height member
  cases balanced.agree atSite reached
  exact (Nat.add_le_add_left (greatest.2 member) _).trans narrow

/-- In the run an instruction leaves alone what lay on the stack at the site. -/
theorem HasRoom.after_eq (room : HasRoom body index run) {below : Nat}
    (atSite : Reaches body.code.instrs index below) {offset depth : Nat} {instr : Instr}
    (reached : Reaches run offset depth) (here : run[offset]? = some instr)
    (enough : instr.effect.pops ≤ depth) :
    instr.effect.after (below + depth) = below + instr.effect.after depth :=
  after_add enough (room below atSite _ ⟨offset, depth, instr, reached, here, .inr rfl⟩)

/-- Control that falls through to the site goes through the run. -/
theorem Inserted.reaches_inside (inserted : Inserted body index run woven)
    (room : HasRoom body index run) {below : Nat} (atSite : Reaches body.code.instrs index below)
    (entered : Reaches woven.code.instrs index below) {state : Nat × Nat}
    (path : Relation.ReflTransGen (Follows run) (0, 0) state) :
    Reaches woven.code.instrs (index + state.1) (below + state.2) := by
  induction path with
  | refl => exact entered
  | tail path step ih =>
      cases step with
      | next here enough falls =>
          have there := inserted.fetch_inserted (List.getElem?_eq_some_iff.mp here).1
          rw [here] at there
          have stepped := ih.follow (.next there (by omega) falls)
          rw [room.after_eq atSite path here enough] at stepped
          exact stepped
      | branch here enough target defined =>
          have there := inserted.fetch_inserted (List.getElem?_eq_some_iff.mp here).1
          rw [here] at there
          have moved := inserted.definedAt_iff.mpr (.inr ⟨_, defined.lt, rfl, defined⟩)
          have stepped := ih.follow (.branch there (by omega) target moved)
          rw [room.after_eq atSite path here enough] at stepped
          exact stepped

/-- Control comes to a relocated instruction as it came to the instruction. -/
theorem Inserted.reaches_relocated (inserted : Inserted body index run woven)
    (passable : Passable run) (room : HasRoom body index run) {state : Nat × Nat}
    (path : Relation.ReflTransGen (Follows body.code.instrs) (0, 0) state) :
    Reaches woven.code.instrs (relocated index run.length state.1) state.2 := by
  -- Control that falls through to the site comes to its relocated position at the end of the run.
  have through : ∀ position depth, Reaches body.code.instrs position depth →
      Reaches woven.code.instrs (entrance index run.length position) depth →
        Reaches woven.code.instrs (relocated index run.length position) depth := by
    intro position depth reached entered
    by_cases atSite : position = index
    · subst atSite
      rw [entrance_site] at entered
      rw [relocated_site]
      exact inserted.reaches_inside room reached entered ((passable.ends_iff 0).mpr rfl)
    · rw [← entrance_of_ne atSite]
      exact entered
  induction path with
  | refl =>
      apply through _ _ (reaches_start _)
      have atStart : entrance index run.length 0 = 0 := by simp [entrance]
      rw [atStart]
      exact reaches_start _
  | tail path step ih =>
      cases step with
      | @next position depth instr here enough falls =>
          have there := (inserted.fetch_relocated position).trans here
          apply through _ _ (Reaches.follow path (.next here enough falls))
          rw [← relocated_add_one]
          exact ih.follow (.next there enough falls)
      | @branch position _ _ _ _ here enough target defined =>
          have there := (inserted.fetch_relocated position).trans here
          exact ih.follow (.branch there enough target
            (inserted.definedAt_iff.mpr (.inl ⟨_, rfl, defined⟩)))

/-- A state of the woven code: one of the body, relocated, or one inside the run above the depth with
which control fell through to the site. -/
inductive Inserted.State (body : Body) (index : Nat) (run : List Instr) : Nat → Nat → Prop
  | relocated {position depth} (reached : Reaches body.code.instrs position depth) :
      State body index run (relocated index run.length position) depth
  | inside {below offset depth} (within : offset < run.length)
      (falls : FallsTo body.code.instrs index below) (reached : Reaches run offset depth) :
      State body index run (index + offset) (below + depth)

/-- Control that goes on inside the run stays there, or comes to the instruction at the site. -/
theorem Inserted.State.of_run (passable : Passable run) {below offset depth : Nat}
    (falls : FallsTo body.code.instrs index below) (reached : Reaches run offset depth) :
    Inserted.State body index run (index + offset) (below + depth) := by
  rcases Nat.lt_or_eq_of_le reached.le_length with within | rfl
  · exact .inside within falls reached
  · cases (passable.ends_iff depth).mp reached
    rw [← relocated_site index run.length]
    exact .relocated falls.reaches

/-- Control that falls through to an instruction of the body comes there or into the run. -/
theorem Inserted.State.of_fall (passable : Passable run) {position depth : Nat}
    (falls : FallsTo body.code.instrs position depth) :
    Inserted.State body index run (entrance index run.length position) depth := by
  by_cases atSite : position = index
  · subst atSite
    rw [entrance_site]
    exact .of_run passable falls (reaches_start run)
  · rw [entrance_of_ne atSite]
    exact .relocated falls.reaches

/-- Every step of the woven code leads from one such state to another. -/
theorem Inserted.State.follow (inserted : Inserted body index run woven)
    (passable : Passable run) (room : HasRoom body index run) {position depth : Nat} {next : Nat × Nat}
    (state : Inserted.State body index run position depth)
    (step : Follows woven.code.instrs (position, depth) next) :
    Inserted.State body index run next.1 next.2 := by
  cases state with
  | @relocated origin depth reached =>
      cases step with
      | next here enough falls =>
          rw [inserted.fetch_relocated] at here
          rw [relocated_add_one]
          exact .of_fall passable (.next reached here enough falls)
      | branch here enough target defined =>
          rw [inserted.fetch_relocated] at here
          rcases inserted.definedAt_iff.mp defined with ⟨_, rfl, inBody⟩ | ⟨_, _, _, inRun⟩
          · exact .relocated (reached.follow (.branch here enough target inBody))
          · exact absurd target (inserted.fresh _ inRun.mem _ (List.mem_of_getElem? here)).2
  | @inside below offset depth within falls reached =>
      cases step with
      | next here _ fallsThrough =>
          rw [inserted.fetch_inserted within] at here
          have enough := passable.enough reached here
          rw [room.after_eq falls.reaches reached here enough, Nat.add_assoc]
          exact .of_run passable falls (reached.follow (.next here enough fallsThrough))
      | branch here _ target defined =>
          rw [inserted.fetch_inserted within] at here
          have enough := passable.enough reached here
          obtain ⟨position, atLabel⟩ := Code.exists_definedAt
            (passable.targets _ (List.mem_of_getElem? here) _ target)
          rcases inserted.definedAt_iff.mp defined with ⟨_, _, inBody⟩ | ⟨other, _, rfl, inRun⟩
          · exact absurd inBody (inserted.not_definedAt_of_run atLabel)
          · rw [room.after_eq falls.reaches reached here enough]
            exact .of_run passable falls (reached.follow (.branch here enough target inRun))

/-- Control comes nowhere else in the woven code. -/
theorem Inserted.state_of_reaches (inserted : Inserted body index run woven)
    (passable : Passable run) (room : HasRoom body index run) {state : Nat × Nat}
    (path : Relation.ReflTransGen (Follows woven.code.instrs) (0, 0) state) :
    Inserted.State body index run state.1 state.2 := by
  induction path with
  | refl =>
      have entered : Inserted.State body index run (entrance index run.length 0) 0 :=
        .of_fall passable .start
      have atStart : entrance index run.length 0 = 0 := by simp [entrance]
      rw [atStart] at entered
      exact entered
  | tail _ step ih => exact ih.follow inserted passable room step

/-- The states of the woven code. -/
theorem Inserted.reaches_iff (inserted : Inserted body index run woven)
    (passable : Passable run) (room : HasRoom body index run) {position depth : Nat} :
    Reaches woven.code.instrs position depth ↔ Inserted.State body index run position depth := by
  constructor
  · exact inserted.state_of_reaches passable room
  · intro state
    cases state with
    | relocated reached => exact inserted.reaches_relocated passable room reached
    | inside _ falls reached =>
        refine inserted.reaches_inside room falls.reaches ?_ reached
        cases falls with
        | start => exact reaches_start _
        | @next before depth instr reachedBefore here enough fallsThrough =>
            have earlier := inserted.reaches_relocated passable room reachedBefore
            have there := (inserted.fetch_relocated before).trans here
            have stepped := earlier.follow (.next there enough fallsThrough)
            rw [relocated_add_one, entrance_site] at stepped
            exact stepped

/-- Control comes to a relocated instruction exactly as it came to the instruction. -/
theorem Inserted.reaches_relocated_iff (inserted : Inserted body index run woven)
    (passable : Passable run) (room : HasRoom body index run) {position depth : Nat} :
    Reaches woven.code.instrs (relocated index run.length position) depth ↔
      Reaches body.code.instrs position depth := by
  constructor
  · intro reached
    have state := inserted.state_of_reaches passable room reached
    dsimp only at state
    generalize placeEq : relocated index run.length position = place at state
    cases state with
    | relocated origin =>
        rw [(strictMono_relocated index run.length).injective placeEq]
        exact origin
    | inside within => exact absurd placeEq (relocated_ne_inside within position)
  · exact inserted.reaches_relocated passable room

/-- Control comes into the run above the depth with which it fell through to the site. -/
theorem Inserted.reaches_inside_iff (inserted : Inserted body index run woven)
    (passable : Passable run) (room : HasRoom body index run) {offset height : Nat} (within : offset < run.length) :
    Reaches woven.code.instrs (index + offset) height ↔
      ∃ below depth, FallsTo body.code.instrs index below ∧ Reaches run offset depth ∧
        height = below + depth := by
  rw [inserted.reaches_iff passable room]
  constructor
  · intro state
    generalize placeEq : index + offset = place at state
    cases state with
    | @relocated position => exact absurd placeEq.symm (relocated_ne_inside within position)
    | inside _ falls reached =>
        obtain rfl := Nat.add_left_cancel placeEq
        exact ⟨_, _, falls, reached, rfl⟩
  · rintro ⟨below, depth, falls, reached, rfl⟩
    exact .inside within falls reached

theorem Inserted.balanced (inserted : Inserted body index run woven) (passable : Passable run)
    (room : HasRoom body index run) (balanced : Balanced body.code.instrs) : Balanced woven.code.instrs where
  labels := inserted.uniqueLabels
  inside := by
    intro depth reached
    have lengthEq : woven.code.instrs.length =
        relocated index run.length body.code.instrs.length := by
      have within := inserted.inside
      unfold relocated
      rw [if_neg (by omega), inserted.instrs_eq]
      simp only [List.length_append, List.length_take, List.length_drop]
      omega
    rw [lengthEq, inserted.reaches_relocated_iff passable room] at reached
    exact balanced.inside depth reached
  enough := by
    intro position depth instr reached here
    cases (inserted.reaches_iff passable room).mp reached with
    | relocated origin =>
        rw [inserted.fetch_relocated] at here
        exact balanced.enough origin here
    | inside within _ inRun =>
        rw [inserted.fetch_inserted within] at here
        exact (passable.enough inRun here).trans (Nat.le_add_left _ _)
  target := by
    intro position depth instr label reached here target
    rw [inserted.instrs_eq]
    cases (inserted.reaches_iff passable room).mp reached with
    | relocated origin =>
        rw [inserted.fetch_relocated] at here
        have member := balanced.target origin here target
        rw [← List.take_append_drop index body.code.instrs] at member
        rcases List.mem_append.mp member with before | behind
        · exact List.mem_append_left _ (List.mem_append_left _ before)
        · exact List.mem_append_right _ behind
    | inside within =>
        rw [inserted.fetch_inserted within] at here
        have member := passable.targets _ (List.mem_of_getElem? here) _ target
        exact List.mem_append_left _ (List.mem_append_right _ member)
  agree := by
    intro position first second reachedFirst reachedSecond
    rcases position_cases index run.length position with ⟨origin, rfl⟩ | ⟨offset, within, rfl⟩
    · rw [inserted.reaches_relocated_iff passable room] at reachedFirst reachedSecond
      exact balanced.agree reachedFirst reachedSecond
    · rw [inserted.reaches_inside_iff passable room within] at reachedFirst reachedSecond
      obtain ⟨below, depth, falls, inRun, rfl⟩ := reachedFirst
      obtain ⟨other, also, alsoFalls, alsoInRun, rfl⟩ := reachedSecond
      rw [balanced.agree falls.reaches alsoFalls.reaches, passable.agree inRun alsoInRun]

/-- The depths of the woven code are those of the body and those of the run above the site. -/
theorem Inserted.mem_heights_iff (inserted : Inserted body index run woven)
    (passable : Passable run) (room : HasRoom body index run) {height : Nat} :
    height ∈ heights woven.code.instrs ↔
      height ∈ heights body.code.instrs ∨
        ∃ below inner, FallsTo body.code.instrs index below ∧ inner ∈ heights run ∧
          height = below + inner := by
  constructor
  · rintro ⟨position, depth, instr, reached, here, side⟩
    cases (inserted.reaches_iff passable room).mp reached with
    | relocated origin =>
        rw [inserted.fetch_relocated] at here
        exact .inl ⟨_, depth, instr, origin, here, side⟩
    | @inside below offset inner within falls inRun =>
        rw [inserted.fetch_inserted within] at here
        rw [room.after_eq falls.reaches inRun here (passable.enough inRun here)] at side
        rcases side with rfl | rfl
        · exact .inr ⟨below, inner, falls, ⟨offset, inner, instr, inRun, here, .inl rfl⟩, rfl⟩
        · exact .inr ⟨below, _, falls, ⟨offset, inner, instr, inRun, here, .inr rfl⟩, rfl⟩
  · rintro (⟨position, depth, instr, reached, here, side⟩ |
      ⟨below, _, falls, ⟨offset, inner, instr, inRun, here, side⟩, rfl⟩)
    · exact ⟨_, depth, instr, inserted.reaches_relocated passable room reached,
        (inserted.fetch_relocated position).trans here, side⟩
    · have within : offset < run.length := (List.getElem?_eq_some_iff.mp here).1
      have reached := (inserted.reaches_inside_iff passable room within).mpr
        ⟨below, inner, falls, inRun, rfl⟩
      refine ⟨_, _, instr, reached, (inserted.fetch_inserted within).trans here, ?_⟩
      rw [room.after_eq falls.reaches inRun here (passable.enough inRun here)]
      rcases side with rfl | rfl
      · exact .inl rfl
      · exact .inr rfl

/-- The table of depths keeps the entries of the body. -/
theorem Inserted.getElem?_records (inserted : Inserted body index run woven)
    (passable : Passable run) (room : HasRoom body index run) {depths grown : List (Option Nat)}
    (records : Records body.code.instrs depths) (grownRecords : Records woven.code.instrs grown)
    {position : Nat} (inside : position < body.code.instrs.length) :
    grown[relocated index run.length position]? = depths[position]? := by
  have entry : ∃ entry, depths[position]? = some entry :=
    ⟨_, List.getElem?_eq_getElem (records.length_eq.symm ▸ inside)⟩
  obtain ⟨held, known⟩ := entry
  rw [known]
  cases held with
  | some depth =>
      rw [grownRecords.known_iff, inserted.reaches_relocated_iff passable room]
      exact (records.known_iff position depth).mp known
  | none =>
      have within : relocated index run.length position < woven.code.instrs.length := by
        have there := inserted.fetch_relocated position
        rw [List.getElem?_eq_getElem inside] at there
        exact (List.getElem?_eq_some_iff.mp there).1
      rw [grownRecords.unknown_iff _ within]
      intro depth
      rw [inserted.reaches_relocated_iff passable room]
      exact (records.unknown_iff position inside).mp known depth

end Weaver.Splice
