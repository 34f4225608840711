import Mathlib.Order.Bounds.Basic
import Weaver.Proofs.Body.Survey
import Weaver.Proofs.Highest

/-!
# The depths that control reaches

`stackDepths_exact` says what the depth analysis computes: it succeeds exactly on balanced code, its
table then holds the depths that are reached, and the required stack is the highest of them.  The
states may be visited in any order.
-/

namespace Weaver.Body

/-- A table that holds the depth of every position that control reaches, and of no other. -/
structure Records (instrs : List Instr) (depths : List (Option Nat)) : Prop where
  length_eq : depths.length = instrs.length
  known_iff : ∀ index depth, depths[index]? = some (some depth) ↔ Reaches instrs index depth
  unknown_iff : ∀ index < instrs.length,
    depths[index]? = some none ↔ ∀ depth, ¬ Reaches instrs index depth

/-- The depths before and after the instructions that control reaches. -/
def heights (instrs : List Instr) : Set Nat :=
  {height | ∃ index depth instr, Reaches instrs index depth ∧ instrs[index]? = some instr ∧
    (height = depth ∨ height = instr.effect.after depth)}

theorem le_of_mem_heights {instrs : List Instr} {height : Nat} (member : height ∈ heights instrs) :
    height ≤ slotLimit := by
  obtain ⟨_, _, instr, reached, _, rfl | rfl⟩ := member
  · exact reached.depth_le
  · exact instr.effect.after_le _

/-- Where an analysis ends, its depths are those that are reached. -/
theorem Survey.Valid.records {body : Body} {method : MethodRef} {positions : List (Label × Nat)}
    {survey : Survey body.code.instrs.toArray}
    (collected : body.code.labelPositions = .ok positions)
    (valid : survey.Valid method positions body.code.instrs) (finished : survey.pending = 0) :
    Records body.code.instrs survey.depths.toList where
  length_eq := by simp
  known_iff := by
    intro index depth
    rw [← valid.knows_iff collected finished (index, depth)]
    simp [Survey.Knows]
  unknown_iff := by
    intro index inside
    have entry : ∃ held, survey.depths[index]? = some held :=
      ⟨_, Vector.getElem?_eq_getElem (by simpa using inside)⟩
    obtain ⟨held, here⟩ := entry
    have known : ∀ depth, held = some depth ↔ Reaches body.code.instrs index depth := by
      intro depth
      rw [← valid.knows_iff collected finished (index, depth)]
      simp [Survey.Knows, here]
    have unknown : (∀ depth, ¬ Reaches body.code.instrs index depth) ↔ held = none := by
      simp only [← known]
      exact Option.eq_none_iff_forall_ne_some.symm
    rw [unknown]
    simp [here]

/-- The analysis of code that is there is an order of visits. -/
theorem stackDepths_visits {body : Body} {positions : List (Label × Nat)}
    (nonempty : body.code.instrs ≠ [])
    (collected : body.code.labelPositions = .ok positions) :
    ∃ last : Survey body.code.instrs.toArray,
      Relation.ReflTransGen (Survey.Visits body.ref positions) (Survey.start _) last ∧
        match body.stackDepths with
        | .ok depths => last.pending = 0 ∧ last.depths.toList = depths
        | .error fault => last.Fails body.ref positions fault := by
  obtain ⟨last, run, outcome⟩ := Survey.explore_visits body.ref
    positions body.code.instrs.toArray [(0, 0)] (.replicate _ none)
  refine ⟨last, run, ?_⟩
  rw [stackDepths, collected]
  simp only [List.isEmpty_iff, nonempty, if_false]
  cases explored : explore body.ref positions body.code.instrs.toArray [(0, 0)]
      (.replicate _ none) with
  | error fault =>
      rw [explored] at outcome
      exact outcome
  | ok found =>
      rw [explored] at outcome
      subst outcome
      exact ⟨rfl, rfl⟩

/-- The depths of code can be told exactly if it is balanced. -/
theorem stackDepths_isOk_iff {body : Body} (nonempty : body.code.instrs ≠ []) :
    (∃ depths, body.stackDepths = .ok depths) ↔ Balanced body.code.instrs := by
  cases collected : body.code.labelPositions with
  | error fault =>
      have repeated : ¬ Code.UniqueLabels body.code.instrs := by
        rw [← Code.labelPositions_isOk_iff, collected]
        simp
      constructor
      · rintro ⟨depths, analysed⟩
        rw [stackDepths, collected] at analysed
        cases analysed
      · intro balanced
        exact absurd balanced.labels repeated
  | ok positions =>
      obtain ⟨last, run, outcome⟩ := stackDepths_visits nonempty collected
      have valid := Survey.valid_of_visits collected run
      cases analysed : body.stackDepths with
      | error fault =>
          rw [analysed] at outcome
          simp [valid.not_balanced collected outcome]
      | ok depths =>
          rw [analysed] at outcome
          simp [valid.balanced collected outcome.1]

/-- The depths that the analysis finds are those that are reached. -/
theorem records_of_stackDepths {body : Body} (nonempty : body.code.instrs ≠ [])
    {depths : List (Option Nat)} (analysed : body.stackDepths = .ok depths) :
    Records body.code.instrs depths := by
  have balanced := (stackDepths_isOk_iff nonempty).mp ⟨depths, analysed⟩
  obtain ⟨positions, collected⟩ := (Code.labelPositions_isOk_iff body.code).mpr balanced.labels
  obtain ⟨last, run, outcome⟩ := stackDepths_visits nonempty collected
  rw [analysed] at outcome
  rw [← outcome.2]
  exact (Survey.valid_of_visits collected run).records collected outcome.1

theorem lt_length_of_stackDepths {body : Body} {depths : List (Option Nat)} {index depth : Nat}
    (analysed : body.stackDepths = .ok depths) (known : depths[index]? = some (some depth)) :
    index < body.code.instrs.length := by
  by_cases empty : body.code.instrs = []
  · have nothing : body.stackDepths = .ok [] := by
      unfold stackDepths Code.labelPositions
      rw [empty]
      rfl
    rw [nothing] at analysed
    cases analysed
    cases known
  · rw [← (records_of_stackDepths empty analysed).length_eq]
    exact (List.getElem?_eq_some_iff.mp known).1

/-- Where the table holds a depth, the code is balanced and control comes with that depth. -/
theorem balanced_of_known {body : Body} {depths : List (Option Nat)} {index depth : Nat}
    (analysed : body.stackDepths = .ok depths) (known : depths[index]? = some (some depth)) :
    body.code.instrs ≠ [] ∧ Balanced body.code.instrs ∧ Reaches body.code.instrs index depth := by
  have nonempty : body.code.instrs ≠ [] :=
    List.ne_nil_of_length_pos (Nat.zero_lt_of_lt (lt_length_of_stackDepths analysed known))
  exact ⟨nonempty, (stackDepths_isOk_iff nonempty).mp ⟨depths, analysed⟩,
    ((records_of_stackDepths nonempty analysed).known_iff index depth).mp known⟩

/-- There is at most one table of the depths that are reached. -/
theorem Records.unique {instrs : List Instr} {first second : List (Option Nat)}
    (firstRecords : Records instrs first) (secondRecords : Records instrs second) :
    first = second := by
  apply List.ext_getElem?
  intro index
  by_cases inside : index < instrs.length
  · have firstInside : index < first.length := firstRecords.length_eq.symm ▸ inside
    rw [List.getElem?_eq_getElem firstInside]
    cases held : first[index] with
    | none =>
        have unknown := (firstRecords.unknown_iff index inside).mp
          (by rw [List.getElem?_eq_getElem firstInside, held])
        exact ((secondRecords.unknown_iff index inside).mpr unknown).symm
    | some depth =>
        have reached := (firstRecords.known_iff index depth).mp
          (by rw [List.getElem?_eq_getElem firstInside, held])
        exact ((secondRecords.known_iff index depth).mpr reached).symm
  · rw [List.getElem?_eq_none (by rw [firstRecords.length_eq]; omega),
      List.getElem?_eq_none (by rw [secondRecords.length_eq]; omega)]

/-- What an entry of the table asks of the stack. -/
def demand (entry : Instr × Option Nat) : Nat := (entry.2.map (peakAt entry.1)).getD 0

theorem requiredMaxStack_eq {body : Body} {depths : List (Option Nat)}
    (analysed : body.stackDepths = .ok depths) :
    body.requiredMaxStack = .ok ((body.code.instrs.zip depths).foldl
      (fun highest entry => max highest (demand entry)) 0) := by
  rw [requiredMaxStack, analysed]
  rfl

/-- The required stack covers the depth before and after an instruction that is reached. -/
theorem peakAt_le_requiredMaxStack {body : Body} {depths : List (Option Nat)} {highest : Nat}
    (analysed : body.stackDepths = .ok depths) (required : body.requiredMaxStack = .ok highest)
    {index depth : Nat} {instr : Instr} (here : body.code.instrs[index]? = some instr)
    (known : depths[index]? = some (some depth)) : peakAt instr depth ≤ highest := by
  rw [requiredMaxStack_eq analysed] at required
  cases required
  have member : (instr, some depth) ∈ body.code.instrs.zip depths :=
    List.mem_of_getElem? (List.getElem?_zip_eq_some.mpr ⟨here, known⟩)
  exact le_foldl_max_of_mem demand member 0

/-- The required stack is the highest depth before or after an instruction that is reached. -/
theorem isGreatest_requiredMaxStack {body : Body} (nonempty : body.code.instrs ≠ [])
    {depths : List (Option Nat)} (analysed : body.stackDepths = .ok depths) :
    ∃ highest, body.requiredMaxStack = .ok highest ∧
      IsGreatest (heights body.code.instrs) highest := by
  have records := records_of_stackDepths nonempty analysed
  refine ⟨_, requiredMaxStack_eq analysed, ?_, ?_⟩
  · have lowest : 0 ∈ heights body.code.instrs := by
      obtain ⟨first, rest, codeEq⟩ := List.exists_cons_of_ne_nil nonempty
      exact ⟨0, 0, first, reaches_start _, by simp [codeEq], .inl rfl⟩
    rcases foldl_max_attained demand (body.code.instrs.zip depths) 0 with
      atStart | ⟨⟨instr, held⟩, member, attained⟩
    · rw [atStart]
      exact lowest
    · rw [attained]
      cases held with
      | none => exact lowest
      | some depth =>
          obtain ⟨index, found⟩ := List.mem_iff_getElem?.mp member
          obtain ⟨here, known⟩ := List.getElem?_zip_eq_some.mp found
          have reached := (records.known_iff index depth).mp known
          exact ⟨index, depth, instr, reached, here, max_choice _ _⟩
  · rintro height ⟨index, depth, instr, reached, here, side⟩
    have known := (records.known_iff index depth).mpr reached
    have covered := peakAt_le_requiredMaxStack analysed (requiredMaxStack_eq analysed) here known
    have below : height ≤ peakAt instr depth := by
      rcases side with rfl | rfl
      · exact Nat.le_max_left _ _
      · exact Nat.le_max_right _ _
    exact below.trans covered

/-- Whether all slots can be counted is read off the table: they can if no sum behind an instruction of
known depth goes beyond the limit. -/
theorem countable_iff_of_stackDepths {body : Body} (nonempty : body.code.instrs ≠ [])
    {depths : List (Option Nat)} (analysed : body.stackDepths = .ok depths) :
    Countable body.code.instrs ↔ ∀ entry ∈ body.code.instrs.zip depths, ∀ depth ∈ entry.2,
      entry.1.effect.slotsAfter depth ≤ slotLimit := by
  have records := records_of_stackDepths nonempty analysed
  rw [countable_iff]
  constructor
  · rintro each ⟨instr, held⟩ member depth rfl
    obtain ⟨index, found⟩ := List.mem_iff_getElem?.mp member
    obtain ⟨here, known⟩ := List.getElem?_zip_eq_some.mp found
    exact each ((records.known_iff index depth).mp known) here
  · intro each index depth instr reached here
    have known := (records.known_iff index depth).mpr reached
    have found : (body.code.instrs.zip depths)[index]? = some (instr, some depth) :=
      List.getElem?_zip_eq_some.mpr ⟨here, known⟩
    exact each _ (List.mem_of_getElem? found) depth rfl

/-- Balanced code requires the highest depth in it. -/
theorem Balanced.requiredMaxStack_eq_ok {body : Body} (balanced : Balanced body.code.instrs)
    (nonempty : body.code.instrs ≠ []) {highest : Nat}
    (greatest : IsGreatest (heights body.code.instrs) highest) :
    body.requiredMaxStack = .ok highest := by
  obtain ⟨depths, analysed⟩ := (stackDepths_isOk_iff nonempty).mpr balanced
  obtain ⟨required, found, requiredGreatest⟩ := isGreatest_requiredMaxStack nonempty analysed
  rw [found, requiredGreatest.unique greatest]

/-- What the depth analysis computes.  It succeeds exactly on balanced code; its table then holds
the depths that are reached, each of them enough for its instruction, and the required stack is the
highest of them.  Whatever pending state is visited next, the visits end, and they end with that
table or, if the code is not balanced, in a failure.  Where no path takes more slots than can be counted,
the depths are the numbers of slots. -/
theorem stackDepths_exact (body : Body) (nonempty : body.code.instrs ≠ []) :
    ((∃ depths, body.stackDepths = .ok depths) ↔ Balanced body.code.instrs) ∧
    (∀ depths, body.stackDepths = .ok depths →
      Records body.code.instrs depths ∧
      (∀ (index depth : Nat) (instr : Instr), depths[index]? = some (some depth) →
        body.code.instrs[index]? = some instr → instr.effect.pops ≤ depth) ∧
      ∃ highest, body.requiredMaxStack = .ok highest ∧
        IsGreatest (heights body.code.instrs) highest) ∧
    (∀ positions, body.code.labelPositions = .ok positions →
      (WellFounded fun later before : Survey body.code.instrs.toArray =>
        Survey.Visits body.ref positions before later) ∧
      ∀ survey : Survey body.code.instrs.toArray,
        Relation.ReflTransGen (Survey.Visits body.ref positions) (Survey.start _) survey →
        (survey.pending ≠ 0 →
          (∃ later, Survey.Visits body.ref positions survey later) ∨
            ∃ fault, survey.Fails body.ref positions fault) ∧
        (survey.pending = 0 → body.stackDepths = .ok survey.depths.toList) ∧
        ∀ fault, survey.Fails body.ref positions fault →
          ∀ depths, body.stackDepths ≠ .ok depths) ∧
    (Countable body.code.instrs → ∀ index depth,
      (Reaches body.code.instrs index depth ↔ Occupies body.code.instrs index depth) ∧
      ∀ instr, Reaches body.code.instrs index depth → body.code.instrs[index]? = some instr →
        instr.effect.after depth = instr.effect.slotsAfter depth) := by
  refine ⟨stackDepths_isOk_iff nonempty, ?_, ?_, ?_⟩
  · intro depths analysed
    have records := records_of_stackDepths nonempty analysed
    have balanced := (stackDepths_isOk_iff nonempty).mp ⟨depths, analysed⟩
    refine ⟨records, ?_, isGreatest_requiredMaxStack nonempty analysed⟩
    intro index depth instr known here
    exact balanced.enough ((records.known_iff index depth).mp known) here
  · intro positions collected
    refine ⟨Survey.wellFounded_visits _ _ _, ?_⟩
    intro survey run
    have valid := Survey.valid_of_visits collected run
    refine ⟨Survey.visits_or_fails survey, ?_, ?_⟩
    · intro finished
      obtain ⟨depths, analysed⟩ :=
        (stackDepths_isOk_iff nonempty).mpr (valid.balanced collected finished)
      rw [analysed, (valid.records collected finished).unique
        (records_of_stackDepths nonempty analysed)]
    · intro fault fails depths analysed
      exact valid.not_balanced collected fails
        ((stackDepths_isOk_iff nonempty).mp ⟨depths, analysed⟩)
  · intro countable index depth
    exact ⟨countable.reaches_iff index depth, fun instr reached here =>
      Effect.after_eq (countable.slotsAfter_le reached here)⟩

/-- A loop over a wide operand, with an instruction that control never reaches. -/
def countdown : Body :=
  { Body.ofNames "a/B" "m" ⟨[.int], .long⟩ ⟨8⟩ with
    code := .ofList
      [.const (.long 7), .label ⟨0⟩, .load .int 0, .jump .ifZero ⟨1⟩, .load .int 0,
        .const (.int (-1)), .arith .add .int, .store .int 0, .jump .always ⟨0⟩, .nop, .label ⟨1⟩,
        .ret (some .long)]
    maxStack := 4 }

theorem stackDepths_countdown :
    countdown.stackDepths =
      .ok [some 0, some 2, some 2, some 3, some 2, some 3, some 4, some 3, some 2, none, some 2,
        some 2] := by
  decide +kernel

theorem countable_countdown : Countable countdown.code.instrs :=
  (countable_iff_of_stackDepths (by decide) stackDepths_countdown).mpr (by decide)

theorem stackDepths_exact_countdown :
    countdown.code.instrs ≠ [] ∧ Balanced countdown.code.instrs ∧
      Reaches countdown.code.instrs 6 4 ∧ (∀ depth, ¬ Reaches countdown.code.instrs 9 depth) := by
  have nonempty : countdown.code.instrs ≠ [] := by decide
  have exact := stackDepths_exact countdown nonempty
  have records := (exact.2.1 _ stackDepths_countdown).1
  exact ⟨nonempty, exact.1.mp ⟨_, stackDepths_countdown⟩, (records.known_iff 6 4).mp rfl,
    (records.unknown_iff 9 (by decide)).mp rfl⟩

end Weaver.Body
