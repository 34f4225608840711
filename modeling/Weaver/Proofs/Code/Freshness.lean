import Mathlib.Data.List.Induction
import Weaver.Code.Basic
import Weaver.Proofs.Highest

/-!
# Fresh labels

The allocator of a sequence stays above every label that was ever in use and above every label that
it handed out, and it stands right above the highest of them.  So a label that is handed out is a new
one whatever was done with the sequence before, and there is none left exactly if the last id is
taken.
-/

namespace Weaver

/-- The label of the highest id. -/
def Label.last : Label := ⟨0xFFFFFFFF⟩

/-- The instruction defines the label or branches to it. -/
def Instr.Uses (instr : Instr) (label : Label) : Prop :=
  instr.definition? = some label ∨ instr.target? = some label

theorem Instr.Uses.lt_labelBound {instr : Instr} {label : Label} (uses : instr.Uses label) :
    label.id.toNat < instr.labelBound := by
  cases instr with
  | label defined =>
      rcases uses with ⟨⟨⟩⟩ | ⟨⟨⟩⟩
      exact Nat.lt_succ_self _
  | jump cond target =>
      rcases uses with ⟨⟨⟩⟩ | ⟨⟨⟩⟩
      exact Nat.lt_succ_self _
  | _ => rcases uses with ⟨⟨⟩⟩ | ⟨⟨⟩⟩

theorem Instr.exists_uses_of_labelBound {instr : Instr} {bound : Nat}
    (right : instr.labelBound = bound + 1) : ∃ label, instr.Uses label ∧ label.id.toNat = bound := by
  cases instr with
  | label defined => exact ⟨defined, .inl rfl, Nat.succ.inj right⟩
  | jump cond target => exact ⟨target, .inr rfl, Nat.succ.inj right⟩
  | _ => cases right

namespace Code

variable {code labelled after : Code} {label : Label} {fault : Fault} {index : Nat}
  {run : List Instr}

theorem eq_of_fields {first second : Code} (instrsEq : first.instrs = second.instrs)
    (nextEq : first.nextLabel = second.nextLabel) : first = second := by
  cases first
  cases second
  cases instrsEq
  cases nextEq
  rfl

/-- Some instruction of the sequence defines the label or branches to it. -/
def Uses (code : Code) (label : Label) : Prop := ∃ instr ∈ code.instrs, instr.Uses label

theorem Uses.lt_nextLabel (uses : code.Uses label) : label.id.toNat < code.nextLabel := by
  obtain ⟨instr, member, here⟩ := uses
  exact here.lt_labelBound.trans_le (code.labels_below instr member)

theorem unused_of_nextLabel_le (above : code.nextLabel ≤ label.id.toNat) :
    ∀ instr ∈ code.instrs, instr.definition? ≠ some label ∧ instr.target? ≠ some label := by
  intro instr member
  have unused : ¬ instr.Uses label := fun uses =>
    Nat.not_lt_of_le above (Uses.lt_nextLabel ⟨instr, member, uses⟩)
  exact not_or.mp unused

/-- The label that is handed out has the id of the allocator, which steps over it. -/
theorem newLabel_eq_ok_iff :
    code.newLabel = (.ok label, labelled) ↔
      label.id.toNat = code.nextLabel ∧ labelled.instrs = code.instrs ∧
        labelled.nextLabel = code.nextLabel + 1 := by
  unfold newLabel
  split
  · rename_i below
    have idEq : (UInt32.ofNat code.nextLabel).toNat = code.nextLabel :=
      UInt32.toNat_ofNat_of_lt' below
    constructor
    · intro handed
      cases handed
      exact ⟨idEq, rfl, rfl⟩
    · rintro ⟨numberEq, instrsEq, nextEq⟩
      have sameId : UInt32.ofNat code.nextLabel = label.id := by
        rw [← numberEq, UInt32.ofNat_toNat]
      refine Prod.ext (congrArg (Except.ok ∘ Label.mk) sameId) ?_
      exact eq_of_fields instrsEq.symm nextEq.symm
  · rename_i exhausted
    constructor
    · intro handed
      cases handed
    · rintro ⟨numberEq, _⟩
      exact absurd (numberEq ▸ label.id.toNat_lt) exhausted

/-- A label is refused exactly if the allocator is above all ids, and the sequence stays. -/
theorem newLabel_eq_error_iff :
    code.newLabel = (.error fault, after) ↔
      UInt32.size ≤ code.nextLabel ∧ fault = .labelsExhausted ∧ after = code := by
  unfold newLabel
  split
  · rename_i below
    simp [Nat.not_le_of_lt below]
  · rename_i exhausted
    simp [Nat.le_of_not_lt exhausted, eq_comm]

/-- A run is refused exactly past the end, and the sequence stays. -/
theorem insert_eq_error_iff :
    code.insert index run = (.error fault, after) ↔
      code.length < index ∧ fault = .insertionOutOfBounds index code.length ∧ after = code := by
  unfold insert
  split
  · rename_i beyond
    simp [beyond, eq_comm]
  · rename_i within
    simp [within]

/-- A run that is inserted stands before the instruction at the index, and its labels are tracked. -/
theorem insert_eq_ok_iff :
    code.insert index run = (.ok (), after) ↔
      index ≤ code.length ∧
        after.instrs = code.instrs.take index ++ run ++ code.instrs.drop index ∧
        after.nextLabel = boundFrom code.nextLabel run := by
  unfold insert
  split
  · rename_i beyond
    simp [Nat.not_le_of_lt beyond]
  · rename_i within
    simp only [Prod.mk.injEq, true_and, Nat.le_of_not_lt within]
    exact ⟨fun same => same ▸ ⟨rfl, rfl⟩, fun same => eq_of_fields same.1.symm same.2.symm⟩

/-- What is done with a sequence. -/
inductive Edit where
  | push (instr : Instr)
  | insert (index : Nat) (run : List Instr)
  | replace (instrs : List Instr)
  | newLabel
  deriving DecidableEq

/-- Edit a sequence: the label that is handed out, if one is asked for, and the sequence as the edit
leaves it. -/
def edit (code : Code) : Edit → Except Fault (Option Label) × Code
  | .push instr => (.ok none, code.push instr)
  | .insert index run =>
      let (result, after) := code.insert index run
      (result.map fun _ => none, after)
  | .replace instrs => (.ok none, code.replace instrs)
  | .newLabel =>
      let (result, after) := code.newLabel
      (result.map some, after)

/-- The sequence behind several edits, failing ones among them. -/
def editAll (code : Code) (edits : List Edit) : Code :=
  edits.foldl (fun code edit => (code.edit edit).2) code

theorem editAll_concat (code : Code) (edits : List Edit) (last : Edit) :
    code.editAll (edits ++ [last]) = ((code.editAll edits).edit last).2 :=
  List.foldl_append

/-- An edit that fails leaves the sequence and its allocator as they are. -/
theorem eq_of_edit_error {edit : Edit} (failed : (code.edit edit).1 = .error fault) :
    (code.edit edit).2 = code := by
  cases edit with
  | push instr => cases failed
  | insert index run =>
      rcases ran : code.insert index run with ⟨refused | _, after⟩
      · rw [Code.edit, ran]
        exact (insert_eq_error_iff.mp ran).2.2
      · rw [Code.edit, ran] at failed
        cases failed
  | replace instrs => cases failed
  | newLabel =>
      rcases asked : code.newLabel with ⟨refused | _, after⟩
      · rw [Code.edit, asked]
        exact (newLabel_eq_error_iff.mp asked).2.2
      · rw [Code.edit, asked] at failed
        cases failed

/-- The allocator stands where it stood or right above a label of some instructions. -/
theorem boundFrom_attained {least bound : Nat} {instrs : List Instr}
    (right : boundFrom least instrs = bound + 1) :
    least = bound + 1 ∨ ∃ instr ∈ instrs, ∃ label, instr.Uses label ∧ label.id.toNat = bound := by
  rcases foldl_max_attained Instr.labelBound instrs least with atStart | ⟨instr, member, found⟩
  · exact .inl (atStart.symm.trans right)
  · exact .inr ⟨instr, member, Instr.exists_uses_of_labelBound (found.symm.trans right)⟩

/-- What an edit does to the allocator: it never moves back, it steps over a label that it hands out,
and otherwise it moves right above a label that is used from then on. -/
structure Allocates (code : Code) (result : Except Fault (Option Label)) (after : Code) : Prop where
  le : code.nextLabel ≤ after.nextLabel
  handed : ∀ label, result = .ok (some label) →
    label.id.toNat = code.nextLabel ∧ after.nextLabel = code.nextLabel + 1
  attained : ∀ bound, after.nextLabel = bound + 1 → code.nextLabel = bound + 1 ∨
    ∃ label, label.id.toNat = bound ∧ (after.Uses label ∨ result = .ok (some label))

/-- Instructions that are put into a sequence move its allocator right above their labels. -/
theorem allocates_of_boundFrom {after : Code} {added : List Instr}
    (nextEq : after.nextLabel = boundFrom code.nextLabel added)
    (present : ∀ instr ∈ added, instr ∈ after.instrs) : code.Allocates (.ok none) after where
  le := nextEq ▸ le_boundFrom _ _
  handed := by
    rintro label ⟨⟩
  attained := by
    intro bound right
    refine (boundFrom_attained (nextEq.symm.trans right)).imp_right ?_
    rintro ⟨instr, member, label, uses, idEq⟩
    exact ⟨label, idEq, .inl ⟨instr, present instr member, uses⟩⟩

theorem allocates_unchanged (code : Code) (fault : Fault) : code.Allocates (.error fault) code where
  le := Nat.le_refl _
  handed := by
    rintro label ⟨⟩
  attained := fun _ => .inl

theorem allocates_edit (code : Code) (edit : Edit) :
    code.Allocates (code.edit edit).1 (code.edit edit).2 := by
  cases edit with
  | push instr =>
      exact allocates_of_boundFrom rfl fun other member => List.mem_append_right _ member
  | insert index run =>
      rcases ran : code.insert index run with ⟨refused | _, after⟩ <;> rw [Code.edit, ran]
      · obtain ⟨_, _, rfl⟩ := insert_eq_error_iff.mp ran
        exact allocates_unchanged _ refused
      · obtain ⟨_, instrsEq, nextEq⟩ := insert_eq_ok_iff.mp ran
        refine allocates_of_boundFrom nextEq fun other member => ?_
        rw [instrsEq]
        exact List.mem_append_left _ (List.mem_append_right _ member)
  | replace instrs => exact allocates_of_boundFrom rfl fun _ member => member
  | newLabel =>
      rcases asked : code.newLabel with ⟨refused | label, after⟩ <;> rw [Code.edit, asked]
      · obtain ⟨_, _, rfl⟩ := newLabel_eq_error_iff.mp asked
        exact allocates_unchanged _ refused
      · obtain ⟨idEq, _, nextEq⟩ := newLabel_eq_ok_iff.mp asked
        refine ⟨nextEq ▸ Nat.le_succ _, ?_, ?_⟩
        · rintro other ⟨⟩
          exact ⟨idEq, nextEq⟩
        · intro bound right
          exact .inr ⟨label, idEq.trans (Nat.succ.inj (nextEq.symm.trans right)), .inr rfl⟩

variable {start : Code} {edits : List Edit} {last : Edit}

/-- The label was in use at some time: at the start, or behind one of the edits. -/
def UsedEver (start : Code) (edits : List Edit) (label : Label) : Prop :=
  ∃ front, front <+: edits ∧ (start.editAll front).Uses label

/-- One of the edits handed out the label. -/
def HandedOut (start : Code) (edits : List Edit) (label : Label) : Prop :=
  ∃ front edit, front ++ [edit] <+: edits ∧
    ((start.editAll front).edit edit).1 = .ok (some label)

theorem usedEver_nil_iff : start.UsedEver [] label ↔ start.Uses label := by
  constructor
  · rintro ⟨front, nothing, uses⟩
    rw [List.prefix_nil.mp nothing] at uses
    exact uses
  · intro uses
    exact ⟨[], List.prefix_rfl, uses⟩

theorem not_handedOut_nil : ¬ start.HandedOut [] label := by
  rintro ⟨front, edit, nothing, _⟩
  exact absurd (List.prefix_nil.mp nothing) (by simp)

theorem usedEver_concat_iff :
    start.UsedEver (edits ++ [last]) label ↔
      start.UsedEver edits label ∨ ((start.editAll edits).edit last).2.Uses label := by
  rw [← editAll_concat]
  constructor
  · rintro ⟨front, within, uses⟩
    rcases List.prefix_concat_iff.mp within with rfl | before
    · exact .inr uses
    · exact .inl ⟨front, before, uses⟩
  · rintro (⟨front, before, uses⟩ | uses)
    · exact ⟨front, before.trans (List.prefix_append _ _), uses⟩
    · exact ⟨_, List.prefix_rfl, uses⟩

theorem handedOut_concat_iff :
    start.HandedOut (edits ++ [last]) label ↔
      start.HandedOut edits label ∨
        ((start.editAll edits).edit last).1 = .ok (some label) := by
  constructor
  · rintro ⟨front, edit, within, handed⟩
    rcases List.prefix_concat_iff.mp within with whole | before
    · obtain ⟨rfl, lastEq⟩ := List.append_inj' whole rfl
      cases lastEq
      exact .inr handed
    · exact .inl ⟨front, edit, before, handed⟩
  · rintro (⟨front, edit, before, handed⟩ | handed)
    · exact ⟨front, edit, before.trans (List.prefix_append _ _), handed⟩
    · exact ⟨edits, last, List.prefix_rfl, handed⟩

/-- A label is taken from the time on at which it is first used or is handed out. -/
def Taken (start : Code) (edits : List Edit) (label : Label) : Prop :=
  start.UsedEver edits label ∨ start.HandedOut edits label

theorem taken_concat_iff :
    start.Taken (edits ++ [last]) label ↔
      start.Taken edits label ∨ ((start.editAll edits).edit last).2.Uses label ∨
        ((start.editAll edits).edit last).1 = .ok (some label) := by
  rw [Taken, usedEver_concat_iff, handedOut_concat_iff, or_or_or_comm]
  rfl

/-- The allocator stands right above the highest label that is taken. -/
structure StandsAbove (code : Code) (Taken : Label → Prop) : Prop where
  lt : ∀ label, Taken label → label.id.toNat < code.nextLabel
  attained : ∀ bound, code.nextLabel = bound + 1 → ∃ label, Taken label ∧ label.id.toNat = bound

theorem StandsAbove.editAll (above : start.StandsAbove start.Uses) (edits : List Edit) :
    (start.editAll edits).StandsAbove (start.Taken edits) := by
  induction edits using List.reverseRecOn with
  | nil =>
      have same : start.Taken [] = start.Uses := by
        funext label
        simp [Taken, usedEver_nil_iff, not_handedOut_nil]
      rw [same]
      exact above
  | append_singleton edits last ih =>
      have step := (start.editAll edits).allocates_edit last
      rw [editAll_concat]
      constructor
      · intro label taken
        rcases taken_concat_iff.mp taken with before | uses | handed
        · exact (ih.lt label before).trans_le step.le
        · exact uses.lt_nextLabel
        · obtain ⟨idEq, nextEq⟩ := step.handed label handed
          rw [nextEq, idEq]
          exact Nat.lt_succ_self _
      · intro bound right
        rcases step.attained bound right with before | ⟨label, idEq, now⟩
        · obtain ⟨label, taken, idEq⟩ := ih.attained bound before
          exact ⟨label, taken_concat_iff.mpr (.inl taken), idEq⟩
        · exact ⟨label, taken_concat_iff.mpr (.inr now), idEq⟩

theorem standsAbove_ofList (instrs : List Instr) :
    (ofList instrs).StandsAbove (ofList instrs).Uses where
  lt := fun _ uses => uses.lt_nextLabel
  attained := by
    intro bound right
    rcases boundFrom_attained right with zero | ⟨instr, member, label, uses, idEq⟩
    · cases zero
    · exact ⟨label, ⟨instr, member, uses⟩, idEq⟩

/-- The allocator is above all ids exactly if the last one is taken. -/
theorem StandsAbove.exhausted_iff {Taken : Label → Prop} (above : code.StandsAbove Taken) :
    UInt32.size ≤ code.nextLabel ↔ Taken .last := by
  constructor
  · intro exhausted
    obtain ⟨bound, right⟩ : ∃ bound, code.nextLabel = bound + 1 :=
      Nat.exists_eq_succ_of_ne_zero (Nat.ne_of_gt (Nat.lt_of_lt_of_le (by decide) exhausted))
    obtain ⟨label, taken, idEq⟩ := above.attained bound right
    have inside : label.id.toNat < UInt32.size := label.id.toNat_lt
    have lastEq : Label.last.id.toNat = 0xFFFFFFFF := rfl
    have highest : label.id.toNat = Label.last.id.toNat := by
      unfold UInt32.size at exhausted inside
      omega
    have same : label = .last := congrArg Label.mk (UInt32.toNat_inj.mp highest)
    exact same ▸ taken
  · exact above.lt _

/-- Labels that are handed out are always fresh.  Whatever was done with a sequence, failing edits
among it, its allocator is above every label that the sequence uses and above every label that was
handed out.  So a label that is handed out was never used and never handed out before, and none is left
exactly if the last id was used or handed out at some time.  An edit that fails changes nothing. -/
theorem newLabel_fresh (instrs : List Instr) (edits : List Edit) :
    (∀ label, ((ofList instrs).editAll edits).Uses label ∨ (ofList instrs).HandedOut edits label →
      label.id.toNat < ((ofList instrs).editAll edits).nextLabel) ∧
    (∀ label labelled, ((ofList instrs).editAll edits).newLabel = (.ok label, labelled) →
      labelled.instrs = ((ofList instrs).editAll edits).instrs ∧
      ¬ ((ofList instrs).editAll edits).Uses label ∧
      ¬ (ofList instrs).UsedEver edits label ∧ ¬ (ofList instrs).HandedOut edits label) ∧
    ((∃ fault after, ((ofList instrs).editAll edits).newLabel = (.error fault, after)) ↔
      (ofList instrs).UsedEver edits .last ∨ (ofList instrs).HandedOut edits .last) ∧
    (∀ edit fault, (((ofList instrs).editAll edits).edit edit).1 = .error fault →
      (((ofList instrs).editAll edits).edit edit).2 = (ofList instrs).editAll edits) := by
  have above := (standsAbove_ofList instrs).editAll edits
  refine ⟨?_, ?_, ?_, fun edit fault => eq_of_edit_error⟩
  · rintro label (uses | handed)
    · exact uses.lt_nextLabel
    · exact above.lt label (.inr handed)
  · intro label labelled handed
    obtain ⟨idEq, instrsEq, _⟩ := newLabel_eq_ok_iff.mp handed
    have fresh : ¬ (ofList instrs).Taken edits label := fun taken =>
      absurd (above.lt label taken) (Nat.not_lt_of_le idEq.ge)
    obtain ⟨unused, unhanded⟩ := not_or.mp fresh
    exact ⟨instrsEq, fun uses => unused ⟨edits, List.prefix_rfl, uses⟩, unused, unhanded⟩
  · rw [← Taken, ← above.exhausted_iff]
    constructor
    · rintro ⟨fault, after, refused⟩
      exact (newLabel_eq_error_iff.mp refused).1
    · intro exhausted
      exact ⟨_, _, newLabel_eq_error_iff.mpr ⟨exhausted, rfl, rfl⟩⟩

/-- The last id may be handed out, and is gone for good even if nothing is left of the sequence. -/
example :
    ((ofList [.jump .always ⟨0xFFFFFFFE⟩]).edit .newLabel).1 = .ok (some .last) ∧
      (((ofList [.jump .always ⟨0xFFFFFFFE⟩]).editAll [.newLabel, .replace []]).edit .newLabel).1 =
        .error .labelsExhausted := by
  decide

end Code

end Weaver
