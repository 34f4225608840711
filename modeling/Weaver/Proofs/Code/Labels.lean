import Mathlib.Data.List.Basic
import Weaver.Code.Basic

/-!
# Positions of labels

Collecting the labels of a sequence succeeds exactly when none is defined twice, and a look-up in
what was collected then finds the one position at which a label is defined.
-/

namespace Weaver.Code

/-- The label is defined at the position. -/
def DefinedAt (instrs : List Instr) (label : Label) (position : Nat) : Prop :=
  instrs[position]? = some (Instr.label label)

/-- No label is defined at two positions. -/
def UniqueLabels (instrs : List Instr) : Prop :=
  ∀ ⦃label first second⦄, DefinedAt instrs label first → DefinedAt instrs label second →
    first = second

@[simp]
theorem definedAt_cons_zero {instr : Instr} {rest : List Instr} {label : Label} :
    DefinedAt (instr :: rest) label 0 ↔ instr = .label label := by
  simp [DefinedAt]

@[simp]
theorem definedAt_cons_succ {instr : Instr} {rest : List Instr} {label : Label} {position : Nat} :
    DefinedAt (instr :: rest) label (position + 1) ↔ DefinedAt rest label position := by
  simp [DefinedAt]

theorem DefinedAt.mem {instrs : List Instr} {label : Label} {position : Nat}
    (defined : DefinedAt instrs label position) : Instr.label label ∈ instrs :=
  List.mem_of_getElem? defined

theorem exists_definedAt {instrs : List Instr} {label : Label}
    (member : Instr.label label ∈ instrs) : ∃ position, DefinedAt instrs label position :=
  List.mem_iff_getElem?.mp member

theorem DefinedAt.lt {instrs : List Instr} {label : Label} {position : Nat}
    (defined : DefinedAt instrs label position) : position < instrs.length :=
  (List.getElem?_eq_some_iff.mp defined).1

/-- Behind instructions without the label it is defined where what follows defines it. -/
theorem DefinedAt.of_append {front back : List Instr} {label : Label} {position : Nat}
    (defined : DefinedAt (front ++ back) label position) (unlabelled : Instr.label label ∉ front) :
    front.length ≤ position ∧ DefinedAt back label (position - front.length) := by
  unfold DefinedAt at defined ⊢
  rcases Nat.lt_or_ge position front.length with before | behind
  · rw [List.getElem?_append_left before] at defined
    exact absurd (List.mem_of_getElem? defined) unlabelled
  · rw [List.getElem?_append_right behind] at defined
    exact ⟨behind, defined⟩

theorem uniqueLabels_of_unlabelled {instrs : List Instr}
    (unlabelled : ∀ label, Instr.label label ∉ instrs) : UniqueLabels instrs :=
  fun label _ _ defined => absurd defined.mem (unlabelled label)

theorem uniqueLabels_nil : UniqueLabels [] := uniqueLabels_of_unlabelled fun _ => List.not_mem_nil

theorem uniqueLabels_cons_iff {instr : Instr} {rest : List Instr} :
    UniqueLabels (instr :: rest) ↔
      UniqueLabels rest ∧ ∀ label, instr = .label label → Instr.label label ∉ rest := by
  constructor
  · intro unique
    constructor
    · intro label first second firstAt secondAt
      exact Nat.succ.inj
        (unique (definedAt_cons_succ.mpr firstAt) (definedAt_cons_succ.mpr secondAt))
    · intro label instrEq member
      obtain ⟨position, later⟩ := exists_definedAt member
      cases unique (definedAt_cons_zero.mpr instrEq) (definedAt_cons_succ.mpr later)
  · rintro ⟨unique, fresh⟩ label first second firstAt secondAt
    cases first with
    | zero =>
        cases second with
        | zero => rfl
        | succ second =>
            exact absurd (definedAt_cons_succ.mp secondAt).mem
              (fresh label (definedAt_cons_zero.mp firstAt))
    | succ first =>
        cases second with
        | zero =>
            exact absurd (definedAt_cons_succ.mp firstAt).mem
              (fresh label (definedAt_cons_zero.mp secondAt))
        | succ second =>
            rw [unique (definedAt_cons_succ.mp firstAt) (definedAt_cons_succ.mp secondAt)]

theorem lookup_cons_of_ne {label other : Label} (distinct : other ≠ label) (index : Nat)
    (seen : List (Label × Nat)) : ((label, index) :: seen).lookup other = seen.lookup other := by
  rw [List.lookup_cons, beq_false_of_ne distinct]

/-- Collecting succeeds exactly if no label is defined twice or was seen before. -/
theorem collectLabels_isOk_iff (instrs : List Instr) (index : Nat) (seen : List (Label × Nat)) :
    (∃ positions, collectLabels instrs index seen = .ok positions) ↔
      UniqueLabels instrs ∧ ∀ label, Instr.label label ∈ instrs → seen.lookup label = none := by
  fun_induction collectLabels instrs index seen with
  | case1 index seen => simp [UniqueLabels, DefinedAt]
  | case2 label rest index seen position known =>
      constructor
      · rintro ⟨_, ⟨⟩⟩
      · rintro ⟨_, unseen⟩
        cases known.symm.trans (unseen label List.mem_cons_self)
  | case3 label rest index seen unknown ih =>
      rw [ih, uniqueLabels_cons_iff]
      constructor
      · rintro ⟨unique, unseen⟩
        have fresh : Instr.label label ∉ rest := by
          intro member
          cases List.lookup_cons_self.symm.trans (unseen label member)
        refine ⟨⟨unique, ?_⟩, ?_⟩
        · rintro other ⟨⟩
          exact fresh
        · intro other member
          rcases List.mem_cons.mp member with same | later
          · cases same
            exact unknown
          · have distinct : other ≠ label := by
              rintro rfl
              exact fresh later
            rw [← lookup_cons_of_ne distinct index]
            exact unseen other later
      · rintro ⟨⟨unique, fresh⟩, unseen⟩
        refine ⟨unique, ?_⟩
        intro other member
        have distinct : other ≠ label := by
          rintro rfl
          exact fresh other rfl member
        rw [lookup_cons_of_ne distinct]
        exact unseen other (List.mem_cons_of_mem _ member)
  | case4 instr rest index seen notLabel ih =>
      rw [ih, uniqueLabels_cons_iff]
      constructor
      · rintro ⟨unique, unseen⟩
        refine ⟨⟨unique, fun label instrEq => absurd instrEq (notLabel label)⟩, ?_⟩
        intro label member
        rcases List.mem_cons.mp member with same | later
        · exact absurd same.symm (notLabel label)
        · exact unseen label later
      · rintro ⟨⟨unique, _⟩, unseen⟩
        exact ⟨unique, fun label member => unseen label (List.mem_cons_of_mem _ member)⟩

/-- A look-up in what was collected finds what was seen before or a position of the list. -/
theorem lookup_of_collectLabels {instrs : List Instr} {index : Nat}
    {seen positions : List (Label × Nat)}
    (collected : collectLabels instrs index seen = .ok positions) (label : Label)
    (position : Nat) :
    positions.lookup label = some position ↔
      seen.lookup label = some position ∨
        ∃ offset, DefinedAt instrs label offset ∧ position = index + offset := by
  fun_induction collectLabels instrs index seen generalizing positions with
  | case1 index seen =>
      cases collected
      simp [DefinedAt]
  | case2 => cases collected
  | case3 first rest index seen unknown ih =>
      rw [ih collected]
      by_cases same : label = first
      · subst same
        rw [List.lookup_cons_self, unknown]
        constructor
        · rintro (here | ⟨offset, defined, rfl⟩)
          · cases here
            exact .inr ⟨0, by simp, rfl⟩
          · exact .inr ⟨offset + 1, by simpa, by omega⟩
        · rintro (absent | ⟨offset, defined, rfl⟩)
          · cases absent
          · cases offset with
            | zero => exact .inl rfl
            | succ offset => exact .inr ⟨offset, by simpa using defined, by omega⟩
      · rw [lookup_cons_of_ne same]
        refine or_congr_right ⟨?_, ?_⟩
        · rintro ⟨offset, defined, rfl⟩
          exact ⟨offset + 1, by simpa, by omega⟩
        · rintro ⟨offset, defined, rfl⟩
          cases offset with
          | zero => exact absurd (Instr.label.inj (definedAt_cons_zero.mp defined)).symm same
          | succ offset => exact ⟨offset, by simpa using defined, by omega⟩
  | case4 instr rest index seen notLabel ih =>
      rw [ih collected]
      refine or_congr_right ⟨?_, ?_⟩
      · rintro ⟨offset, defined, rfl⟩
        exact ⟨offset + 1, by simpa, by omega⟩
      · rintro ⟨offset, defined, rfl⟩
        cases offset with
        | zero => exact absurd (definedAt_cons_zero.mp defined) (notLabel label)
        | succ offset => exact ⟨offset, by simpa using defined, by omega⟩

theorem labelPositions_isOk_iff (code : Code) :
    (∃ positions, code.labelPositions = .ok positions) ↔ UniqueLabels code.instrs := by
  rw [labelPositions, collectLabels_isOk_iff]
  simp

/-- A look-up among the positions finds the one at which a label is defined. -/
theorem lookup_labelPositions {code : Code} {positions : List (Label × Nat)}
    (collected : code.labelPositions = .ok positions) (label : Label) (position : Nat) :
    positions.lookup label = some position ↔ DefinedAt code.instrs label position := by
  rw [lookup_of_collectLabels collected]
  simp

end Weaver.Code
