import Weaver.Proofs.Splice.Flow

/-!
# One pass against the analysis of all paths

A builder goes through a run once and keeps, for each label, the depth of the first branch to it; the
analysis of a body follows every path.  On code whose branches go forward, and in which nothing but a
label stands where control does not come, the analysis finds nothing that the builder did not know:
`ofList_agrees` compares the two behind every instruction, and their highest depths.
-/

namespace Weaver.Run

namespace Builder

open Body

variable {instrs : List Instr} {last : Builder} {position origin depth : Nat} {instr : Instr}
  {label : Label}

/-- Every branch stands in front of the label that it goes to. -/
def Forward (instrs : List Instr) : Prop :=
  ∀ ⦃position instr label target⦄, instrs[position]? = some instr → instr.target? = some label →
    Code.DefinedAt instrs label target → position < target

theorem live_iff : Live instrs ↔ ∀ position : Fin instrs.length,
    instrs[position].isLabel = true ∨ (stage instrs position).reachable = true := by
  constructor
  · exact fun live position => live position _ (List.getElem?_eq_getElem position.isLt)
  · intro each position instr here
    obtain ⟨inside, rfl⟩ := List.getElem?_eq_some_iff.mp here
    exact each ⟨position, inside⟩

instance : Decidable (Live instrs) := decidable_of_iff _ live_iff.symm

theorem forward_iff : Forward instrs ↔ ∀ position target : Fin instrs.length,
    instrs[position].target?.map Instr.label = some instrs[target] → position < target := by
  constructor
  · intro forward position target branches
    obtain ⟨label, goes, labelEq⟩ := Option.map_eq_some_iff.mp branches
    refine forward (List.getElem?_eq_getElem position.isLt) goes ?_
    rw [Code.DefinedAt, List.getElem?_eq_getElem target.isLt, labelEq]
    rfl
  · intro each position instr label target here goes defined
    obtain ⟨inside, rfl⟩ := List.getElem?_eq_some_iff.mp here
    obtain ⟨within, labelEq⟩ := List.getElem?_eq_some_iff.mp defined
    apply each ⟨position, inside⟩ ⟨target, within⟩
    simp [goes, labelEq]

instance : Decidable (Forward instrs) := decidable_of_iff _ forward_iff.symm

/-- Where the builder finds that an instruction falls through, control comes to the next position at
the depth that the builder tracks. -/
theorem reaches_of_fall (emitted : empty.emitAll instrs = (.ok (), last)) (live : Live instrs)
    (inside : position ≤ instrs.length) (reachable : (stage instrs position).reachable = true) :
    Reaches instrs position (stage instrs position).depth := by
  cases position with
  | zero => exact reaches_start instrs
  | succ position =>
      have here : instrs[position]? = some instrs[position] := List.getElem?_eq_getElem inside
      obtain ⟨enough, depthEq, _, reachableEq, _⟩ := stage_succ emitted here
      rw [reachableEq, Bool.and_eq_true] at reachable
      rw [depthEq]
      exact (reaches_of_reachable emitted live (Nat.le_of_lt inside) reachable.1).follow
        (.next here enough reachable.2)

/-- A branch is emitted where control comes, so control comes to its label at the depth behind it. -/
theorem reaches_of_branch (emitted : empty.emitAll instrs = (.ok (), last)) (live : Live instrs)
    (here : instrs[origin]? = some instr) (goes : instr.target? = some label) :
    Reaches instrs origin (arrival instrs origin).depth ∧
      ∀ position, Code.DefinedAt instrs label position →
        Reaches instrs position (instr.effect.after (arrival instrs origin).depth) := by
  have inside : origin < instrs.length := (List.getElem?_eq_some_iff.mp here).1
  have reached := reaches_of_reachable emitted live (Nat.le_of_lt inside)
    (live.reachable_of_branch here goes)
  exact ⟨reached, fun position defined =>
    reached.follow (.branch here (stage_succ emitted here).1 goes defined)⟩

/-- Where the depths of code can be told, all branches to a label agree with each other and with the
instruction in front of it, so it was enough to keep the depth of the first of them. -/
theorem coherent_of_balanced (emitted : empty.emitAll instrs = (.ok (), last))
    (live : Live instrs) (forward : Forward instrs) (balanced : Balanced instrs) :
    Coherent instrs where
  live
  forward := fun here goes defined => forward here goes defined
  meets := by
    intro position instr label depth here goes noted
    have inside : position < instrs.length := (List.getElem?_eq_some_iff.mp here).1
    obtain ⟨reached, behind⟩ := reaches_of_branch emitted live here goes
    obtain ⟨target, defined⟩ := Code.exists_definedAt (balanced.target reached here goes)
    obtain ⟨origin, _, first, there, goesFirst, depthEq⟩ :=
      exists_branch_of_noted emitted (Nat.le_of_lt inside) noted
    have known := (reaches_of_branch emitted live there goesFirst).2 target defined
    rw [depthEq] at known
    rw [← arrival_of_unlabelled here (unlabelled_of_branch goes).1]
    exact balanced.agree (behind target defined) known
  joins := by
    intro position label depth defined noted reachable
    have inside : position ≤ instrs.length := Nat.le_of_lt defined.lt
    obtain ⟨origin, _, first, there, goesFirst, depthEq⟩ :=
      exists_branch_of_noted emitted inside noted
    have known := (reaches_of_branch emitted live there goesFirst).2 position defined
    rw [depthEq] at known
    exact balanced.agree (reaches_of_fall emitted live inside reachable) known

/-- Behind an instruction the builder finds that control goes on exactly if some path falls through
it. -/
theorem Coherent.reachable_stage_iff (coherent : Coherent instrs)
    (emitted : empty.emitAll instrs = (.ok (), last)) (inside : position < instrs.length) :
    (stage instrs (position + 1)).reachable = true ↔
      ∃ depth, Splice.FallsTo instrs (position + 1) depth := by
  have here : instrs[position]? = some instrs[position] := List.getElem?_eq_getElem inside
  obtain ⟨enough, _, _, reachableEq, _⟩ := stage_succ emitted here
  rw [reachableEq, Bool.and_eq_true]
  constructor
  · rintro ⟨comes, falls⟩
    have reached := reaches_of_reachable emitted coherent.live (Nat.le_of_lt inside) comes
    exact ⟨_, .next reached here enough falls⟩
  · rintro ⟨_, fallsTo⟩
    cases fallsTo with
    | next reached same _ falls =>
        cases here.symm.trans same
        exact ⟨((coherent.reaches_iff emitted (Nat.le_of_lt inside)).mp reached).1, falls⟩

end Builder

open Builder

/-- What a builder tracks in one pass is what the analysis of all paths finds.  Take a body of exactly
the instructions of a run whose branches go forward and in which nothing but a label is emitted where
the builder finds that control does not come.  If the depths of the body can be told, the builder has
behind every instruction that is reached the depth behind it, which is the number of slots as far as it
can be counted; it finds that control goes on exactly
if some path falls through the instruction; and the peak of the run is the stack that the body
requires. -/
theorem ofList_agrees {body : Body} {run : Run} {depths : List (Option Nat)}
    (made : ofList body.code.instrs = .ok run) (live : Live body.code.instrs)
    (forward : Forward body.code.instrs) (analysed : body.stackDepths = .ok depths) :
    (∀ (position depth : Nat) (instr : Instr), body.code.instrs[position]? = some instr →
      depths[position]? = some (some depth) →
      instr.effect.pops ≤ depth ∧
        (stage body.code.instrs (position + 1)).depth = instr.effect.after depth ∧
        (depth - instr.effect.pops + instr.effect.pushes ≤ slotLimit →
          (stage body.code.instrs (position + 1)).depth =
            depth - instr.effect.pops + instr.effect.pushes)) ∧
    (∀ position < body.code.instrs.length,
      (stage body.code.instrs (position + 1)).reachable = true ↔
        ∃ depth, Splice.FallsTo body.code.instrs (position + 1) depth) ∧
    body.requiredMaxStack = .ok run.peak := by
  obtain ⟨last, emitted, peakEq⟩ := exists_emitAll_of_ofList made
  by_cases nonempty : body.code.instrs = []
  · rw [nonempty] at emitted ⊢
    cases emitted
    refine ⟨?_, ?_, ?_⟩
    · rintro position depth instr ⟨⟩
    · rintro position ⟨⟩
    · rw [Body.requiredMaxStack_eq analysed, nonempty, peakEq]
      rfl
  · have balanced := (Body.stackDepths_isOk_iff nonempty).mp ⟨depths, analysed⟩
    have records := Body.records_of_stackDepths nonempty analysed
    have coherent := coherent_of_balanced emitted live forward balanced
    refine ⟨?_, ?_, ?_⟩
    · intro position depth instr here known
      have inside : position < body.code.instrs.length := (List.getElem?_eq_some_iff.mp here).1
      have reached := (records.known_iff position depth).mp known
      obtain ⟨_, rfl⟩ := (coherent.reaches_iff emitted (Nat.le_of_lt inside)).mp reached
      obtain ⟨enough, depthEq, _⟩ := stage_succ emitted here
      exact ⟨enough, depthEq, fun counted => depthEq.trans (Effect.after_eq counted)⟩
    · exact fun position inside => coherent.reachable_stage_iff emitted inside
    · rw [peakEq]
      exact balanced.requiredMaxStack_eq_ok nonempty (coherent.isGreatest_peak emitted nonempty)

/-- Two branches to one label, over code that leaves, and a label to which nothing goes. -/
def forking : List Instr :=
  [.const (.int 1), .jump .ifZero ⟨0⟩, .const (.int 2), .jump .ifNonZero ⟨0⟩, .const (.long 5),
    .ret (some .long), .label ⟨1⟩, .label ⟨0⟩, .ret none]

/-- The builder takes up the depth of the branches behind the label that is never reached. -/
theorem ofList_agrees_forking :
    let body := { Body.ofNames "a/B" "m" ⟨[], .void⟩ ⟨9⟩ with code := .ofList forking }
    ofList body.code.instrs = .ok ⟨forking, 2⟩ ∧ Live body.code.instrs ∧
      Forward body.code.instrs ∧
      body.stackDepths = .ok [some 0, some 1, some 0, some 1, some 0, some 2, none, some 0, some 0] ∧
      (stage forking 8).depth = 0 ∧ (∃ depth, Splice.FallsTo forking 8 depth) ∧
      (¬ ∃ depth, Splice.FallsTo forking 7 depth) ∧ body.requiredMaxStack = .ok 2 := by
  intro body
  have made : ofList body.code.instrs = .ok ⟨forking, 2⟩ := by decide +kernel
  have live : Live body.code.instrs := by decide +kernel
  have forward : Forward body.code.instrs := by decide +kernel
  have analysed : body.stackDepths =
      .ok [some 0, some 1, some 0, some 1, some 0, some 2, none, some 0, some 0] := by
    decide +kernel
  obtain ⟨depthsAgree, falls, required⟩ := ofList_agrees made live forward analysed
  refine ⟨made, live, forward, analysed, (depthsAgree 7 0 _ rfl rfl).2.1, ?_, ?_, required⟩
  · exact (falls 7 (by decide)).mp (by decide +kernel)
  · exact fun fallsTo => absurd ((falls 6 (by decide)).mpr fallsTo) (by decide +kernel)

end Weaver.Run
