import Weaver.Body.Basic
import Weaver.Proofs.Code.Labels

/-!
# Positions around an inserted run

A run that is put before one instruction of a body moves that instruction and all behind it by its
length.  `relocated` is the position of an instruction of the body, and `entrance` is where control
comes to stand for it by falling through: the two differ at the site alone, where the run comes
first.  Branches go to labels, so they are relocated and never enter the run.
-/

namespace Weaver.Body

/-- The positions of the labels of a body, as an execution of it looks them up. -/
def labels (body : Body) : List (Label × Nat) := (body.code.labelPositions.toOption).getD []

theorem labelPositions_eq_labels {body : Body} (unique : Code.UniqueLabels body.code.instrs) :
    body.code.labelPositions = .ok body.labels := by
  obtain ⟨positions, collected⟩ := (Code.labelPositions_isOk_iff body.code).mpr unique
  rw [labels, collected]
  rfl

theorem lookup_labels {body : Body} (unique : Code.UniqueLabels body.code.instrs) (label : Label)
    (position : Nat) :
    body.labels.lookup label = some position ↔
      Code.DefinedAt body.code.instrs label position :=
  Code.lookup_labelPositions (labelPositions_eq_labels unique) label position

end Weaver.Body

namespace Weaver.Splice

/-- The position of an instruction of the body behind the insertion. -/
def relocated (index shift position : Nat) : Nat :=
  if position < index then position else position + shift

/-- The position to which control falls through for an instruction of the body. -/
def entrance (index shift position : Nat) : Nat :=
  if position ≤ index then position else position + shift

/-- The position at which control arrives for an instruction of the body, by a branch or not. -/
def landing (index shift : Nat) (branched : Bool) (position : Nat) : Nat :=
  if branched then relocated index shift position else entrance index shift position

variable {index shift : Nat}

theorem relocated_add_one (index shift position : Nat) :
    relocated index shift position + 1 = entrance index shift (position + 1) := by
  unfold relocated entrance
  split <;> split <;> omega

theorem relocated_site (index shift : Nat) : relocated index shift index = index + shift := by
  simp [relocated]

theorem entrance_site (index shift : Nat) : entrance index shift index = index := by
  simp [entrance]

theorem entrance_of_ne {position : Nat} (away : position ≠ index) :
    entrance index shift position = relocated index shift position := by
  unfold relocated entrance
  split <;> split <;> omega

/-- Every position is that of a relocated instruction or one inside the run. -/
theorem position_cases (index shift position : Nat) :
    (∃ origin, position = relocated index shift origin) ∨
      ∃ offset, offset < shift ∧ position = index + offset := by
  unfold relocated
  rcases Nat.lt_or_ge position index with before | behind
  · exact .inl ⟨position, by simp [before]⟩
  · rcases Nat.lt_or_ge position (index + shift) with within | after
    · exact .inr ⟨position - index, by omega, by omega⟩
    · exact .inl ⟨position - shift, by rw [if_neg (by omega)]; omega⟩

/-- Another body of the same method that declares no less. -/
structure Widens (body woven : Body) : Prop where
  ref_eq : woven.ref = body.ref
  access_eq : woven.access = body.access
  stack_le : body.maxStack ≤ woven.maxStack
  locals_le : body.maxLocals ≤ woven.maxLocals

/-- The other body declares more than the body. -/
def Roomier (body woven : Body) : Prop :=
  body.maxStack < woven.maxStack ∨ body.maxLocals < woven.maxLocals

/-- A body with a run of instructions put before the one at `index`, which defines no label that the
body uses. -/
structure Inserted (body : Body) (index : Nat) (run : List Instr) (woven : Body) : Prop extends
    Widens body woven where
  inside : index ≤ body.code.instrs.length
  instrs_eq : woven.code.instrs =
    body.code.instrs.take index ++ run ++ body.code.instrs.drop index
  unique : Code.UniqueLabels body.code.instrs
  uniqueRun : Code.UniqueLabels run
  fresh : ∀ label, Instr.label label ∈ run →
    ∀ instr ∈ body.code.instrs, instr.definition? ≠ some label ∧ instr.target? ≠ some label

namespace Inserted

variable {body woven : Body} {run : List Instr}

theorem nil {stack locals : Nat} (unique : Code.UniqueLabels body.code.instrs)
    (stackLe : body.maxStack ≤ stack) (localsLe : body.maxLocals ≤ locals) :
    Inserted body 0 [] { body with maxStack := stack, maxLocals := locals } where
  ref_eq := rfl
  access_eq := rfl
  stack_le := stackLe
  locals_le := localsLe
  inside := Nat.zero_le _
  instrs_eq := rfl
  unique
  uniqueRun := Code.uniqueLabels_nil
  fresh := by
    intro label member
    cases member

theorem mem_iff (inserted : Inserted body index run woven) {instr : Instr} :
    instr ∈ woven.code.instrs ↔ instr ∈ body.code.instrs ∨ instr ∈ run := by
  have split := List.take_append_drop index body.code.instrs
  rw [inserted.instrs_eq]
  conv_rhs => rw [← split]
  simp only [List.mem_append]
  exact ⟨fun member => by tauto, fun member => by tauto⟩

theorem fetch_relocated (inserted : Inserted body index run woven) (position : Nat) :
    woven.code.instrs[relocated index run.length position]? = body.code.instrs[position]? := by
  have inside := inserted.inside
  rw [inserted.instrs_eq, List.append_assoc]
  unfold relocated
  split
  · rename_i before
    rw [List.getElem?_append_left (by simp; omega), List.getElem?_take_of_lt before]
  · rw [List.getElem?_append_right (by simp; omega), List.getElem?_append_right (by simp; omega),
      List.getElem?_drop]
    congr 1
    simp only [List.length_take]
    omega

theorem fetch_inserted (inserted : Inserted body index run woven) {offset : Nat}
    (within : offset < run.length) : woven.code.instrs[index + offset]? = run[offset]? := by
  have inside := inserted.inside
  have taken : (body.code.instrs.take index).length = index := by simp; omega
  rw [inserted.instrs_eq, List.append_assoc, List.getElem?_append_right (by omega),
    List.getElem?_append_left (by omega), taken, Nat.add_sub_cancel_left]

/-- The labels of the woven code are those of the body, relocated, and those of the run. -/
theorem definedAt_iff (inserted : Inserted body index run woven) {label : Label}
    {position : Nat} :
    Code.DefinedAt woven.code.instrs label position ↔
      (∃ origin, position = relocated index run.length origin ∧
        Code.DefinedAt body.code.instrs label origin) ∨
      ∃ offset, offset < run.length ∧ position = index + offset ∧
        Code.DefinedAt run label offset := by
  unfold Code.DefinedAt
  constructor
  · intro defined
    rcases position_cases index run.length position with ⟨origin, rfl⟩ | ⟨offset, within, rfl⟩
    · exact .inl ⟨origin, rfl, (inserted.fetch_relocated origin).symm.trans defined⟩
    · exact .inr ⟨offset, within, rfl, (inserted.fetch_inserted within).symm.trans defined⟩
  · rintro (⟨origin, rfl, defined⟩ | ⟨offset, within, rfl, defined⟩)
    · exact (inserted.fetch_relocated origin).trans defined
    · exact (inserted.fetch_inserted within).trans defined

theorem not_definedAt_of_run (inserted : Inserted body index run woven) {label : Label}
    {offset position : Nat} (ofRun : Code.DefinedAt run label offset) :
    ¬ Code.DefinedAt body.code.instrs label position :=
  fun ofBody => (inserted.fresh label ofRun.mem _ ofBody.mem).1 rfl

theorem uniqueLabels (inserted : Inserted body index run woven) :
    Code.UniqueLabels woven.code.instrs := by
  intro label first second atFirst atSecond
  rcases inserted.definedAt_iff.mp atFirst with ⟨origin, rfl, here⟩ | ⟨offset, _, rfl, here⟩
  · rcases inserted.definedAt_iff.mp atSecond with ⟨other, rfl, there⟩ | ⟨other, _, rfl, there⟩
    · rw [inserted.unique here there]
    · exact absurd here (inserted.not_definedAt_of_run there)
  · rcases inserted.definedAt_iff.mp atSecond with ⟨other, rfl, there⟩ | ⟨other, _, rfl, there⟩
    · exact absurd there (inserted.not_definedAt_of_run here)
    · rw [inserted.uniqueRun here there]

end Inserted

/-- A branch of the body finds its label where the insertion has moved it. -/
theorem Inserted.lookup_labels {body woven : Body} {index : Nat} {run : List Instr}
    (inserted : Inserted body index run woven) {instr : Instr} {label : Label}
    (member : instr ∈ body.code.instrs) (target : instr.target? = some label) :
    woven.labels.lookup label =
      (body.labels.lookup label).map (relocated index run.length) := by
  apply Option.ext
  intro position
  rw [Body.lookup_labels inserted.uniqueLabels, inserted.definedAt_iff, Option.map_eq_some_iff]
  constructor
  · rintro (⟨origin, rfl, defined⟩ | ⟨offset, _, _, defined⟩)
    · exact ⟨origin, (Body.lookup_labels inserted.unique label origin).mpr defined, rfl⟩
    · exact absurd target (inserted.fresh label defined.mem instr member).2
  · rintro ⟨origin, known, rfl⟩
    exact .inl ⟨origin, rfl, (Body.lookup_labels inserted.unique label origin).mp known⟩

end Weaver.Splice
