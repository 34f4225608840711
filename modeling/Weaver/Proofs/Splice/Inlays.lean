import Weaver.Proofs.Body.Bounds
import Weaver.Proofs.Body.Depths
import Weaver.Proofs.Splice.Applied

/-!
# Runs at several sites

Runs that are inserted from the last site to the first stand where they would stand had they all been
inserted at once: each right before its instruction of the body.  Every insertion takes its label and
the slot of its wrapper above all that the body and the insertions before it use.
-/

namespace Weaver

/-- Instructions with a run before each of them, `start` being the index of the first. -/
def Code.interleave (runs : Nat → List Instr) (start : Nat) (instrs : List Instr) : List Instr :=
  (instrs.zipIdx start).flatMap fun (instr, index) => runs index ++ [instr]

namespace Code

variable {runs others : Nat → List Instr} {start : Nat}

@[simp]
theorem interleave_cons (runs : Nat → List Instr) (start : Nat) (instr : Instr)
    (rest : List Instr) :
    interleave runs start (instr :: rest) =
      runs start ++ instr :: interleave runs (start + 1) rest := by
  simp [interleave]

theorem interleave_append (runs : Nat → List Instr) (start : Nat) (front back : List Instr) :
    interleave runs start (front ++ back) =
      interleave runs start front ++ interleave runs (start + front.length) back := by
  simp [interleave, List.zipIdx_append]

/-- Interleaved code has the instructions and those of the runs before them. -/
theorem mem_interleave_iff {runs : Nat → List Instr} {start : Nat} {instrs : List Instr}
    {instr : Instr} :
    instr ∈ interleave runs start instrs ↔
      instr ∈ instrs ∨
        ∃ index, start ≤ index ∧ index < start + instrs.length ∧ instr ∈ runs index := by
  induction instrs generalizing start with
  | nil =>
      constructor
      · rintro ⟨⟩
      · rintro (⟨⟨⟩⟩ | ⟨index, above, below, _⟩)
        exact absurd above (Nat.not_le_of_lt below)
  | cons first rest ih =>
      rw [interleave_cons, List.mem_append, List.mem_cons, ih, List.mem_cons, List.length_cons]
      constructor
      · rintro (atStart | rfl | later | ⟨index, above, below, member⟩)
        · exact .inr ⟨start, Nat.le_refl _, by omega, atStart⟩
        · exact .inl (.inl rfl)
        · exact .inl (.inr later)
        · exact .inr ⟨index, by omega, by omega, member⟩
      · rintro ((rfl | later) | ⟨index, above, below, member⟩)
        · exact .inr (.inl rfl)
        · exact .inr (.inr (.inl later))
        · rcases Nat.eq_or_lt_of_le above with rfl | behind
          · exact .inl member
          · exact .inr (.inr (.inr ⟨index, behind, by omega, member⟩))

/-- Only the runs before the instructions that there are matter. -/
theorem interleave_congr {instrs : List Instr}
    (same : ∀ index, start ≤ index → index < start + instrs.length → runs index = others index) :
    interleave runs start instrs = interleave others start instrs := by
  induction instrs generalizing start with
  | nil => rfl
  | cons instr rest ih =>
      have sameRest : interleave runs (start + 1) rest = interleave others (start + 1) rest :=
        ih fun index above below => same index (by omega) (by rw [List.length_cons]; omega)
      rw [interleave_cons, interleave_cons, sameRest, same start (Nat.le_refl _) (by simp)]

theorem interleave_eq_self {instrs : List Instr}
    (bare : ∀ index, start ≤ index → runs index = []) : interleave runs start instrs = instrs := by
  induction instrs generalizing start with
  | nil => rfl
  | cons instr rest ih =>
      rw [interleave_cons, bare start (Nat.le_refl _),
        ih fun index above => bare index (Nat.le_of_succ_le above)]
      rfl

end Code

/-- A run that is put before an instruction of a body, with the routine that it calls. -/
structure Inlay where
  index : Nat
  splice : Splice
  routine : Routine
  slot? : Option Nat
  skip : Label

namespace Inlay

/-- The instructions of the run. -/
def run (firstArgSlot : Nat) (inlay : Inlay) : List Instr :=
  inlay.splice.instrs firstArgSlot inlay.routine.ref inlay.slot? inlay.skip

/-- The runs that are put before the instruction at an index. -/
def runsAt (firstArgSlot : Nat) (inlays : List Inlay) (index : Nat) : List Instr :=
  (inlays.filter fun inlay => inlay.index = index).flatMap (run firstArgSlot)

variable {firstArgSlot index : Nat} {inlay : Inlay} {inlays : List Inlay}

theorem call_mem_run (firstArgSlot : Nat) (inlay : Inlay) :
    Instr.call .static inlay.routine.ref ∈ inlay.run firstArgSlot := by
  rw [run, Splice.instrs_eq]
  exact List.mem_append_right _ List.mem_cons_self

theorem runsAt_eq_nil (away : ∀ inlay ∈ inlays, inlay.index ≠ index) :
    runsAt firstArgSlot inlays index = [] := by
  have nothing : (inlays.filter fun inlay => inlay.index = index) = [] :=
    List.filter_eq_nil_iff.mpr fun inlay member => by simp [away inlay member]
  rw [runsAt, nothing]
  rfl

theorem runsAt_cons_of_ne (away : inlay.index ≠ index) :
    runsAt firstArgSlot (inlay :: inlays) index = runsAt firstArgSlot inlays index := by
  rw [runsAt, List.filter_cons_of_neg (by simpa using away), runsAt]

theorem runsAt_cons_self (away : ∀ other ∈ inlays, other.index ≠ inlay.index) :
    runsAt firstArgSlot (inlay :: inlays) inlay.index = inlay.run firstArgSlot := by
  have alone : runsAt firstArgSlot inlays inlay.index = [] := runsAt_eq_nil away
  unfold runsAt at alone ⊢
  rw [List.filter_cons_of_pos (by simp), List.flatMap_cons, alone, List.append_nil]

theorem runsAt_of_mem (descending : inlays.Pairwise fun first second => second.index < first.index)
    (member : inlay ∈ inlays) :
    runsAt firstArgSlot inlays inlay.index = inlay.run firstArgSlot := by
  induction inlays with
  | nil => cases member
  | cons first rest ih =>
      obtain ⟨below, descendingRest⟩ := List.pairwise_cons.mp descending
      rcases List.mem_cons.mp member with rfl | later
      · exact runsAt_cons_self fun other inRest => (below other inRest).ne
      · rw [runsAt_cons_of_ne (below inlay later).ne', ih descendingRest later]

/-- There is a run before the instructions at the indices of the runs, and no other. -/
theorem runsAt_ne_nil_iff
    (descending : inlays.Pairwise fun first second => second.index < first.index) :
    runsAt firstArgSlot inlays index ≠ [] ↔ index ∈ inlays.map Inlay.index := by
  constructor
  · intro filled
    by_contra away
    exact filled (runsAt_eq_nil fun inlay member same => away (same ▸ List.mem_map_of_mem member))
  · intro member
    obtain ⟨inlay, held, rfl⟩ := List.mem_map.mp member
    rw [runsAt_of_mem descending held]
    exact List.ne_nil_of_mem (inlay.call_mem_run firstArgSlot)

/-- The runs that are put last stand before all others, and those of the others behind it. -/
theorem interleave_cons_runsAt {instrs : List Instr} (inside : inlay.index < instrs.length)
    (below : ∀ other ∈ inlays, other.index < inlay.index) :
    Code.interleave (runsAt firstArgSlot (inlay :: inlays)) 0 instrs =
      Code.interleave (runsAt firstArgSlot inlays) 0
        (instrs.take inlay.index ++ inlay.run firstArgSlot ++ instrs.drop inlay.index) := by
  have taken : (instrs.take inlay.index).length = inlay.index :=
    List.length_take_of_le inside.le
  have front : Code.interleave (runsAt firstArgSlot (inlay :: inlays)) 0
        (instrs.take inlay.index) =
      Code.interleave (runsAt firstArgSlot inlays) 0 (instrs.take inlay.index) := by
    apply Code.interleave_congr
    intro index _ before
    rw [taken, Nat.zero_add] at before
    exact runsAt_cons_of_ne before.ne'
  have bare : ∀ index, inlay.index ≤ index → runsAt firstArgSlot inlays index = [] :=
    fun index above => runsAt_eq_nil fun other member => ((below other member).trans_le above).ne
  have atIndex : runsAt firstArgSlot (inlay :: inlays) inlay.index = inlay.run firstArgSlot :=
    runsAt_cons_self fun other member => (below other member).ne
  have behind : Code.interleave (runsAt firstArgSlot (inlay :: inlays)) inlay.index
        (instrs.drop inlay.index) = inlay.run firstArgSlot ++ instrs.drop inlay.index := by
    rw [List.drop_eq_getElem_cons inside, Code.interleave_cons, atIndex, Code.interleave_eq_self]
    intro index above
    rw [runsAt_cons_of_ne (by omega), bare index (by omega)]
  calc Code.interleave (runsAt firstArgSlot (inlay :: inlays)) 0 instrs
      = Code.interleave (runsAt firstArgSlot (inlay :: inlays)) 0
          (instrs.take inlay.index ++ instrs.drop inlay.index) := by rw [List.take_append_drop]
    _ = Code.interleave (runsAt firstArgSlot inlays) 0 (instrs.take inlay.index) ++
          (inlay.run firstArgSlot ++ instrs.drop inlay.index) := by
        rw [Code.interleave_append, front, taken, Nat.zero_add, behind]
    _ = _ := by
        rw [List.append_assoc, Code.interleave_append, taken, Nat.zero_add,
          Code.interleave_eq_self bare]

/-- The label of a run is the one that was handed out for it, if it has one. -/
theorem definitions_run (firstArgSlot : Nat) (inlay : Inlay) :
    (inlay.run firstArgSlot).filterMap Instr.definition? =
      (inlay.slot?.map fun _ => inlay.skip).toList := by
  have unlabelled : (inlay.splice.unlabelled firstArgSlot inlay.routine.ref inlay.slot?
      inlay.skip).filterMap Instr.definition? = [] := by
    apply List.filterMap_eq_nil_iff.mpr
    intro instr member
    cases instr with
    | label defined => exact absurd member Splice.label_not_mem_unlabelled
    | _ => rfl
  rw [run, Splice.instrs_eq_unlabelled, List.filterMap_append, unlabelled, List.nil_append]
  cases inlay.slot? <;> rfl

/-- A run stores nothing but its wrapper, into the slot of its own. -/
theorem store_mem_run_iff {kind : Kind} {slot : Nat} :
    Instr.store kind slot ∈ inlay.run firstArgSlot ↔
      kind = .reference ∧ inlay.slot? = some slot := by
  have notSource : Instr.store kind slot ≠ inlay.splice.source := by
    unfold Splice.source
    split <;> simp
  have notLeave : ∀ kept,
      Instr.store kind slot ∉ Splice.leave inlay.splice.attachment.returnType kept := by
    intro kept
    unfold Splice.leave
    split <;> simp
  unfold run
  cases inlay.slot? with
  | none => simp [Splice.instrs, Splice.construct, Splice.dispatch, Run.loadArgs, notSource]
  | some kept =>
      rw [Option.some.injEq, eq_comm (a := kept)]
      simp [Splice.instrs, Splice.construct, Splice.keep, Splice.dispatch, Splice.check,
        Run.loadArgs, notSource, notLeave]

theorem call_static_mem_run_iff {ref : MethodRef} :
    Instr.call .static ref ∈ inlay.run firstArgSlot ↔ ref = inlay.routine.ref := by
  have notSource : Instr.call .static ref ≠ inlay.splice.source := by
    unfold Splice.source
    split <;> simp
  have notLeave : ∀ kept,
      Instr.call .static ref ∉ Splice.leave inlay.splice.attachment.returnType kept := by
    intro kept
    unfold Splice.leave
    split <;> simp
  unfold run
  cases inlay.slot? with
  | none => simp [Splice.instrs, Splice.construct, Splice.dispatch, Run.loadArgs, notSource]
  | some kept =>
      simp [Splice.instrs, Splice.construct, Splice.keep, Splice.dispatch, Splice.check,
        Run.loadArgs, notSource, notLeave]

theorem construct_isPrefix (firstArgSlot : Nat) (inlay : Inlay) :
    inlay.splice.construct <+: inlay.run firstArgSlot := by
  rw [run, Splice.instrs_eq, Splice.lead, List.append_assoc, List.append_assoc]
  exact List.prefix_append _ _

end Inlay

/-- The slot is that of the receiver, or half of a parameter or of a local that is loaded or stored. -/
inductive Body.Uses (body : Body) : Nat → Prop
  | receiver (receives : body.isStatic = false) : Uses body 0
  | parameter {slot half : Nat} {kind : Kind} (held : (slot, kind) ∈ body.parameterSlots)
      (within : half < kind.slots) : Uses body (slot + half)
  | load {slot half : Nat} {kind : Kind} (member : .load kind slot ∈ body.code.instrs)
      (within : half < kind.slots) : Uses body (slot + half)
  | store {slot half : Nat} {kind : Kind} (member : .store kind slot ∈ body.code.instrs)
      (within : half < kind.slots) : Uses body (slot + half)

theorem Body.Uses.lt {body : Body} {used slot : Nat} (uses : body.Uses used)
    (above : body.requiredMaxLocals ≤ slot) (declarable : slot < slotLimit) : used < slot := by
  obtain ⟨arguments, accessed⟩ := requiredMaxLocals_le_iff.mp above
  -- A bound that stopped at the limit would leave no slot to declare.
  have exact : ∀ {start half slots : Nat}, addSlots start slots ≤ slot → half < slots →
      start + half < slot := by
    intro start half slots bounded within
    unfold addSlots at bounded
    omega
  cases uses with
  | receiver receives => exact (one_le_argumentSlots receives).trans arguments
  | parameter held within =>
      rw [argumentSlots_eq] at arguments
      exact exact ((Signature.addSlots_le_of_mem_layout held).trans arguments) within
  | load member within => exact exact (accessed _ member) within
  | store member within => exact exact (accessed _ member) within

/-- A body with runs that were put before its instructions, the last site first. -/
structure Inlaid (body : Body) (inlays : List Inlay) (woven : Body) : Prop where
  descending : inlays.Pairwise fun first second => second.index < first.index
  inside : ∀ inlay ∈ inlays, inlay.index < body.code.instrs.length
  instrs_eq : woven.code.instrs =
    Code.interleave (Inlay.runsAt body.firstArgSlot inlays) 0 body.code.instrs
  /-- Every label is handed out above those that were handed out before it. -/
  labels : inlays.Pairwise fun first second => first.skip.id.toNat < second.skip.id.toNat
  fresh : ∀ inlay ∈ inlays, body.code.nextLabel ≤ inlay.skip.id.toNat
  kept : ∀ inlay ∈ inlays, inlay.slot?.isSome = inlay.splice.cancellable
  /-- Every wrapper is kept above the locals that were declared before it. -/
  slots : (inlays.filterMap Inlay.slot?).Pairwise (· < ·)
  free : ∀ slot ∈ inlays.filterMap Inlay.slot?, body.maxLocals ≤ slot ∧
    body.requiredMaxLocals ≤ slot ∧ slot < woven.maxLocals ∧ slot < slotLimit
  locals_le : body.maxLocals ≤ woven.maxLocals

namespace Inlaid

open Splice

variable {splice : Splice} {body middle woven : Body} {index depth : Nat} {routine : Routine}
  {skip : Label} {run : Run} {inlays : List Inlay}

theorem nil (body : Body) : Inlaid body [] body where
  descending := .nil
  inside := List.forall_mem_nil _
  instrs_eq := (Code.interleave_eq_self fun _ _ => rfl).symm
  labels := .nil
  fresh := List.forall_mem_nil _
  kept := List.forall_mem_nil _
  slots := .nil
  free := List.forall_mem_nil _
  locals_le := Nat.le_refl _

/-- Runs before earlier instructions leave the run of an insertion where it is. -/
theorem cons (effect : Applied splice body index routine.ref depth skip run middle)
    (below : ∀ inlay ∈ inlays, inlay.index < index) (inlaid : Inlaid middle inlays woven) :
    Inlaid body (⟨index, splice, routine, splice.wrapperLocal? body, skip⟩ :: inlays) woven := by
  obtain ⟨depths, analysed, known⟩ := effect.analysed
  have inside := Body.lt_length_of_stackDepths analysed known
  have instrsEq := effect.inserted.instrs_eq
  have argsEq : middle.firstArgSlot = body.firstArgSlot := by
    rw [effect.woven_eq]
    rfl
  have required : body.requiredMaxLocals ≤ middle.requiredMaxLocals := by
    obtain ⟨arguments, accessed⟩ := Body.requiredMaxLocals_le_iff.mp
      (Nat.le_refl middle.requiredMaxLocals)
    apply Body.requiredMaxLocals_le_iff.mpr
    constructor
    · rw [effect.woven_eq] at arguments ⊢
      exact arguments
    · exact fun instr member => accessed instr (effect.inserted.mem_iff.mpr (.inl member))
  have keptSlot : ∀ slot, splice.wrapperLocal? body = some slot →
      slot < middle.maxLocals ∧ slot < slotLimit := by
    intro slot kept
    have declarable := effect.declarable
    rw [kept] at declarable
    rw [effect.maxLocals_eq, kept]
    exact ⟨Nat.lt_succ_self slot, declarable⟩
  have slotsEq : (Inlay.mk index splice routine (splice.wrapperLocal? body) skip ::
      inlays).filterMap Inlay.slot? =
        (splice.wrapperLocal? body).toList ++ inlays.filterMap Inlay.slot? := by
    cases kept : splice.wrapperLocal? body with
    | none => exact List.filterMap_cons_none rfl
    | some slot => exact List.filterMap_cons_some rfl
  constructor
  · exact List.pairwise_cons.mpr ⟨below, inlaid.descending⟩
  · exact List.forall_mem_cons.mpr ⟨inside, fun inlay member => (below inlay member).trans inside⟩
  · rw [inlaid.instrs_eq, instrsEq, argsEq, Inlay.interleave_cons_runsAt inside below]
    rfl
  · refine List.pairwise_cons.mpr ⟨?_, inlaid.labels⟩
    intro inlay member
    dsimp only
    rw [effect.handed]
    exact effect.nextLabel_lt.trans_le (inlaid.fresh inlay member)
  · refine List.forall_mem_cons.mpr ⟨effect.handed.ge, ?_⟩
    exact fun inlay member => effect.nextLabel_lt.le.trans (inlaid.fresh inlay member)
  · refine List.forall_mem_cons.mpr ⟨?_, inlaid.kept⟩
    unfold Splice.wrapperLocal?
    cases splice.cancellable <;> rfl
  · rw [slotsEq]
    refine List.pairwise_append.mpr ⟨?_, inlaid.slots, ?_⟩
    · cases splice.wrapperLocal? body with
      | none => exact .nil
      | some slot => exact List.pairwise_singleton _ slot
    · intro slot kept later member
      exact (keptSlot slot (Option.mem_toList.mp kept)).1.trans_le (inlaid.free later member).1
  · rw [slotsEq]
    intro slot member
    rcases List.mem_append.mp member with kept | later
    · obtain ⟨declared, below⟩ := keptSlot slot (Option.mem_toList.mp kept)
      obtain ⟨aboveDeclared, aboveRequired⟩ := le_of_wrapperLocal? (Option.mem_toList.mp kept)
      exact ⟨aboveDeclared, aboveRequired, declared.trans_le inlaid.locals_le, below⟩
    · obtain ⟨aboveDeclared, aboveRequired, declared, below⟩ := inlaid.free slot later
      exact ⟨effect.inserted.locals_le.trans aboveDeclared, required.trans aboveRequired, declared,
        below⟩
  · exact effect.inserted.locals_le.trans inlaid.locals_le

theorem nodup_definitions (inlaid : Inlaid body inlays woven) (firstArgSlot : Nat) :
    ((inlays.flatMap (Inlay.run firstArgSlot)).filterMap Instr.definition?).Nodup := by
  have skips : (inlays.map Inlay.skip).Nodup := by
    apply List.pairwise_map.mpr
    exact inlaid.labels.imp fun below same => below.ne (congrArg (fun label => label.id.toNat) same)
  have among : List.Sublist ((inlays.flatMap (Inlay.run firstArgSlot)).filterMap
      Instr.definition?) (inlays.map Inlay.skip) := by
    clear skips inlaid
    induction inlays with
    | nil => exact .slnil
    | cons inlay rest ih =>
        rw [List.flatMap_cons, List.filterMap_append, Inlay.definitions_run, List.map_cons]
        cases inlay.slot? with
        | none => exact ih.cons inlay.skip
        | some slot => exact ih.cons_cons inlay.skip
  exact skips.sublist among

/-- No run defines a label that the body defines or branches to. -/
theorem fresh_definition (inlaid : Inlaid body inlays woven) {inlay : Inlay}
    (member : inlay ∈ inlays) {firstArgSlot : Nat} {label : Label}
    (defined : label ∈ (inlay.run firstArgSlot).filterMap Instr.definition?) :
    ∀ instr ∈ body.code.instrs, instr.definition? ≠ some label ∧ instr.target? ≠ some label := by
  rw [Inlay.definitions_run] at defined
  obtain ⟨_, _, rfl⟩ := Option.map_eq_some_iff.mp (Option.mem_toList.mp defined)
  exact Code.unused_of_nextLabel_le (inlaid.fresh inlay member)

end Inlaid

/-- The woven body is what inserting all runs at once makes of the body. -/
structure AtOnce (body : Body) (inlays : List Inlay) (woven : Body) : Prop where
  /-- The instructions of the body in their order, with the runs right before theirs. -/
  instrs_eq : woven.code.instrs =
    Code.interleave (Inlay.runsAt body.firstArgSlot inlays) 0 body.code.instrs
  inside : ∀ inlay ∈ inlays, inlay.index < body.code.instrs.length
  single : ∀ inlay ∈ inlays,
    Inlay.runsAt body.firstArgSlot inlays inlay.index = inlay.run body.firstArgSlot
  bare : ∀ index, index ∉ inlays.map Inlay.index →
    Inlay.runsAt body.firstArgSlot inlays index = []
  calls : ∀ inlay ∈ inlays,
    Instr.call .static inlay.routine.ref ∈ inlay.run body.firstArgSlot
  /-- No label is defined by two runs or twice by one. -/
  labels : ((inlays.flatMap (Inlay.run body.firstArgSlot)).filterMap Instr.definition?).Nodup
  fresh : ∀ label ∈ (inlays.flatMap (Inlay.run body.firstArgSlot)).filterMap Instr.definition?,
    ∀ instr ∈ body.code.instrs, instr.definition? ≠ some label ∧ instr.target? ≠ some label
  kept : ∀ inlay ∈ inlays, inlay.slot?.isSome = inlay.splice.cancellable
  stores : ∀ inlay ∈ inlays, ∀ kind slot,
    Instr.store kind slot ∈ inlay.run body.firstArgSlot ↔
      kind = .reference ∧ inlay.slot? = some slot
  /-- No slot is that of two wrappers. -/
  slots : (inlays.filterMap Inlay.slot?).Nodup
  unused : ∀ slot ∈ inlays.filterMap Inlay.slot?, ¬ body.Uses slot ∧ slot < woven.maxLocals

/-- Runs that were inserted one after the other are as if inserted at once. -/
theorem Inlaid.atOnce {body woven : Body} {inlays : List Inlay}
    (inlaid : Inlaid body inlays woven) : AtOnce body inlays woven where
  instrs_eq := inlaid.instrs_eq
  inside := inlaid.inside
  single := fun _ member => Inlay.runsAt_of_mem inlaid.descending member
  bare := fun _ away =>
    not_not.mp (mt (Inlay.runsAt_ne_nil_iff inlaid.descending).mp away)
  calls := fun inlay _ => inlay.call_mem_run body.firstArgSlot
  labels := inlaid.nodup_definitions body.firstArgSlot
  fresh := by
    intro label defined
    rw [List.filterMap_flatMap] at defined
    obtain ⟨inlay, member, ofRun⟩ := List.mem_flatMap.mp defined
    exact inlaid.fresh_definition member ofRun
  kept := inlaid.kept
  stores := fun _ _ _ _ => Inlay.store_mem_run_iff
  slots := inlaid.slots.imp fun below => below.ne
  unused := by
    intro slot member
    obtain ⟨_, required, declared, declarable⟩ := inlaid.free slot member
    exact ⟨fun uses => absurd (uses.lt required declarable) (Nat.lt_irrefl slot), declared⟩

/-- A woven body has the instructions of the body and those of the runs. -/
theorem AtOnce.mem_iff {body woven : Body} {inlays : List Inlay} (atOnce : AtOnce body inlays woven)
    {instr : Instr} :
    instr ∈ woven.code.instrs ↔
      instr ∈ body.code.instrs ∨ ∃ inlay ∈ inlays, instr ∈ inlay.run body.firstArgSlot := by
  rw [atOnce.instrs_eq, Code.mem_interleave_iff]
  apply or_congr_right
  constructor
  · rintro ⟨index, _, _, member⟩
    by_cases known : index ∈ inlays.map Inlay.index
    · obtain ⟨inlay, inlayIn, rfl⟩ := List.mem_map.mp known
      rw [atOnce.single inlay inlayIn] at member
      exact ⟨inlay, inlayIn, member⟩
    · rw [atOnce.bare index known] at member
      cases member
  · rintro ⟨inlay, inlayIn, member⟩
    refine ⟨inlay.index, Nat.zero_le _, ?_, ?_⟩
    · rw [Nat.zero_add]
      exact atOnce.inside inlay inlayIn
    · rw [atOnce.single inlay inlayIn]
      exact member

end Weaver
