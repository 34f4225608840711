import Mathlib.Logic.Relation
import Weaver.Body.Depth
import Weaver.Proofs.Code.Labels

/-!
# Control flow and operand depths

A state is a position in the code with the depth of the operand stack.  `Follows` is one step of the
control flow, by fall-through or by a branch, and `Reaches` holds of the states to which such steps
lead from the start of the code with an empty stack.  Code is `Balanced` when its depths can be told:
control stays inside, every instruction finds what it pops and every branch its label, and no position
is reached at two depths.

The depths of `Reaches` are counts of 16 bits, as the analysis keeps them.  `Occupies` counts the slots
without a limit.  Where no path takes more of them than the limit, which is what `Countable` says, the
two are the same.
-/

namespace Weaver

namespace Body

/-- One step of the control flow, `sum` giving the depth behind an instruction. -/
inductive Moves (sum : Effect → Nat → Nat) (instrs : List Instr) : Nat × Nat → Nat × Nat → Prop
  | next {index depth instr} (here : instrs[index]? = some instr)
      (enough : instr.effect.pops ≤ depth) (falls : instr.fallsThrough = true) :
      Moves sum instrs (index, depth) (index + 1, sum instr.effect depth)
  | branch {index depth instr label position} (here : instrs[index]? = some instr)
      (enough : instr.effect.pops ≤ depth) (target : instr.target? = some label)
      (defined : Code.DefinedAt instrs label position) :
      Moves sum instrs (index, depth) (position, sum instr.effect depth)

/-- One step of the control flow at the depths of the analysis. -/
abbrev Follows (instrs : List Instr) : Nat × Nat → Nat × Nat → Prop := Moves Effect.after instrs

/-- One step of the control flow with all slots on the stack counted. -/
abbrev Fills (instrs : List Instr) : Nat × Nat → Nat × Nat → Prop :=
  Moves Effect.slotsAfter instrs

/-- Control comes to the position at the given depth. -/
def Reaches (instrs : List Instr) (index depth : Nat) : Prop :=
  Relation.ReflTransGen (Follows instrs) (0, 0) (index, depth)

/-- Control comes to the position with the given number of slots on the stack. -/
def Occupies (instrs : List Instr) (index slots : Nat) : Prop :=
  Relation.ReflTransGen (Fills instrs) (0, 0) (index, slots)

/-- No path takes more slots than the limit. -/
def Countable (instrs : List Instr) : Prop :=
  ∀ index slots, Occupies instrs index slots → slots ≤ slotLimit

/-- Code whose depths can be told. -/
structure Balanced (instrs : List Instr) : Prop where
  labels : Code.UniqueLabels instrs
  inside : ∀ depth, ¬ Reaches instrs instrs.length depth
  enough : ∀ {index depth instr}, Reaches instrs index depth → instrs[index]? = some instr →
    instr.effect.pops ≤ depth
  target : ∀ {index depth instr label}, Reaches instrs index depth →
    instrs[index]? = some instr → instr.target? = some label → Instr.label label ∈ instrs
  agree : ∀ {index first second}, Reaches instrs index first → Reaches instrs index second →
    first = second

theorem reaches_start (instrs : List Instr) : Reaches instrs 0 0 := .refl

theorem Reaches.follow {instrs : List Instr} {index depth : Nat} {state : Nat × Nat}
    (reached : Reaches instrs index depth) (step : Follows instrs (index, depth) state) :
    Reaches instrs state.1 state.2 :=
  reached.tail step

theorem Moves.follows {instrs : List Instr} {state next : Nat × Nat} (step : Fills instrs state next)
    (fits : next.2 ≤ slotLimit) : Follows instrs state next := by
  cases step with
  | next here enough falls =>
      rw [← Effect.after_eq fits]
      exact .next here enough falls
  | branch here enough target defined =>
      rw [← Effect.after_eq fits]
      exact .branch here enough target defined

/-- Where all slots can be counted, the depths of the analysis are the numbers of slots. -/
theorem Countable.reaches_iff {instrs : List Instr} (countable : Countable instrs)
    (index depth : Nat) : Reaches instrs index depth ↔ Occupies instrs index depth := by
  constructor
  · have counted : ∀ {state}, Relation.ReflTransGen (Follows instrs) (0, 0) state →
        Relation.ReflTransGen (Fills instrs) (0, 0) state := by
      intro state path
      induction path with
      | refl => exact .refl
      | tail _ step ih =>
          -- what is behind the instruction is on a path with all slots counted, so it does not wrap
          cases step with
          | next here enough falls =>
              have fills : Occupies instrs _ _ := ih.tail (.next here enough falls)
              rw [Effect.after_eq (countable _ _ fills)]
              exact fills
          | branch here enough target defined =>
              have fills : Occupies instrs _ _ := ih.tail (.branch here enough target defined)
              rw [Effect.after_eq (countable _ _ fills)]
              exact fills
    exact counted
  · have followed : ∀ {state}, Relation.ReflTransGen (Fills instrs) (0, 0) state →
        Relation.ReflTransGen (Follows instrs) (0, 0) state := by
      intro state path
      induction path with
      | refl => exact .refl
      | tail path step ih => exact ih.tail (step.follows (countable _ _ (path.tail step)))
    exact followed

/-- Where all slots can be counted, so can those behind an instruction to which control comes. -/
theorem Countable.slotsAfter_le {instrs : List Instr} (countable : Countable instrs)
    {index depth : Nat} {instr : Instr} (reached : Reaches instrs index depth)
    (here : instrs[index]? = some instr) : instr.effect.slotsAfter depth ≤ slotLimit := by
  have occupied := (countable.reaches_iff index depth).mp reached
  by_cases enough : instr.effect.pops ≤ depth
  · cases falls : instr.fallsThrough with
    | true => exact countable _ _ (occupied.tail (.next here enough falls))
    | false =>
        -- what ends a path pushes nothing
        have limit := countable _ _ occupied
        have fewer : instr.effect.slotsAfter depth ≤ depth := by
          rcases Instr.fallsThrough_eq_false_iff.mp falls with ⟨_, rfl⟩ | ⟨_, rfl⟩ | rfl <;>
            exact Nat.sub_le _ _
        omega
  · have pushes := instr.pushes_le_two
    have limit : 2 ≤ slotLimit := by decide
    unfold Effect.slotsAfter
    omega

/-- All slots can be counted if they can be behind every instruction to which control comes. -/
theorem countable_iff {instrs : List Instr} :
    Countable instrs ↔ ∀ {index depth instr}, Reaches instrs index depth →
      instrs[index]? = some instr → instr.effect.slotsAfter depth ≤ slotLimit := by
  refine ⟨fun countable _ _ _ => countable.slotsAfter_le, fun each => ?_⟩
  have fits : ∀ {state next}, Reaches instrs state.1 state.2 → Fills instrs state next →
      next.2 ≤ slotLimit := by
    intro state next reached step
    cases step with
    | next here => exact each reached here
    | branch here => exact each reached here
  have reached : ∀ {state}, Relation.ReflTransGen (Fills instrs) (0, 0) state →
      Reaches instrs state.1 state.2 := by
    intro state path
    induction path with
    | refl => exact .refl
    | tail _ step ih => exact ih.tail (step.follows (fits ih step))
  intro index slots occupied
  cases occupied with
  | refl => exact Nat.zero_le _
  | tail path step => exact fits (reached path) step

/-- Where all slots can be counted, a step with all of them counted is one of the analysis. -/
theorem Countable.follows {instrs : List Instr} (countable : Countable instrs) {index depth : Nat}
    {next : Nat × Nat} (reached : Reaches instrs index depth)
    (step : Fills instrs (index, depth) next) : Follows instrs (index, depth) next :=
  step.follows (countable _ _ (((countable.reaches_iff index depth).mp reached).tail step))

theorem Reaches.depth_le {instrs : List Instr} {index depth : Nat}
    (reached : Reaches instrs index depth) : depth ≤ slotLimit := by
  cases reached with
  | refl => exact Nat.zero_le _
  | tail _ step => cases step <;> exact Effect.after_le _ _

theorem Reaches.le_length {instrs : List Instr} {index depth : Nat}
    (reached : Reaches instrs index depth) : index ≤ instrs.length := by
  cases reached with
  | refl => exact Nat.zero_le _
  | tail _ step =>
      cases step with
      | next here => exact (List.getElem?_eq_some_iff.mp here).1
      | branch _ _ _ defined => exact Nat.le_of_lt defined.lt

/-- In balanced code there is an instruction wherever control comes. -/
theorem Balanced.exists_instr {instrs : List Instr} {index depth : Nat}
    (balanced : Balanced instrs) (reached : Reaches instrs index depth) :
    ∃ instr, instrs[index]? = some instr := by
  rcases Nat.lt_or_eq_of_le reached.le_length with inside | atEnd
  · exact ⟨instrs[index], List.getElem?_eq_getElem inside⟩
  · subst atEnd
    exact absurd reached (balanced.inside depth)

/-- The states that are found to follow an instruction are those to which control goes. -/
theorem mem_successors_iff {code : Code} {positions : List (Label × Nat)}
    (collected : code.labelPositions = .ok positions) {method : MethodRef} {index depth : Nat}
    {instr : Instr} (here : code.instrs[index]? = some instr) {found : List (Nat × Nat)}
    (following : successors method positions index depth instr = .ok found) (state : Nat × Nat) :
    state ∈ found ↔ Follows code.instrs (index, depth) state := by
  have unfolded : Follows code.instrs (index, depth) state ↔
      instr.effect.pops ≤ depth ∧
        ((instr.fallsThrough = true ∧ state = (index + 1, instr.effect.after depth)) ∨
          ∃ label position, instr.target? = some label ∧
            positions.lookup label = some position ∧
            state = (position, instr.effect.after depth)) := by
    constructor
    · intro step
      cases step with
      | next also enough falls =>
          cases here.symm.trans also
          exact ⟨enough, .inl ⟨falls, rfl⟩⟩
      | branch also enough target defined =>
          cases here.symm.trans also
          exact ⟨enough, .inr ⟨_, _, target,
            (Code.lookup_labelPositions collected _ _).mpr defined, rfl⟩⟩
    · rintro ⟨enough, ⟨falls, rfl⟩ | ⟨label, position, target, known, rfl⟩⟩
      · exact .next here enough falls
      · exact .branch here enough target ((Code.lookup_labelPositions collected _ _).mp known)
  rw [unfolded]
  unfold successors at following
  split at following
  · cases following
  · rename_i shallow
    have enough : instr.effect.pops ≤ depth := Nat.le_of_not_lt shallow
    cases target : instr.target? with
    | none =>
        simp only [target] at following
        cases following
        cases instr.fallsThrough <;> simp [enough]
    | some label =>
        simp only [target] at following
        cases known : positions.lookup label with
        | none =>
            simp only [known] at following
            cases following
        | some position =>
            simp only [known] at following
            cases following
            cases instr.fallsThrough <;> simp [enough, known]

/-- The states that follow an instruction can be told if the stack holds what it pops and its label
is defined. -/
theorem successors_isOk_iff {code : Code} {positions : List (Label × Nat)}
    (collected : code.labelPositions = .ok positions) (method : MethodRef) {index depth : Nat}
    {instr : Instr} :
    (∃ found, successors method positions index depth instr = .ok found) ↔
      instr.effect.pops ≤ depth ∧
        ∀ label, instr.target? = some label → Instr.label label ∈ code.instrs := by
  unfold successors
  by_cases shallow : depth < instr.effect.pops
  · simp [shallow, Nat.not_le.mpr shallow]
  · rw [if_neg shallow]
    have enough : instr.effect.pops ≤ depth := Nat.le_of_not_lt shallow
    cases target : instr.target? with
    | none => simp [enough]
    | some label =>
        cases known : positions.lookup label with
        | none =>
            have undefined : Instr.label label ∉ code.instrs := by
              intro member
              obtain ⟨position, defined⟩ := Code.exists_definedAt member
              cases known.symm.trans ((Code.lookup_labelPositions collected _ _).mpr defined)
            simp [undefined, known]
        | some position =>
            have defined := ((Code.lookup_labelPositions collected _ _).mp known).mem
            simp [enough, known, defined]

end Body

end Weaver
