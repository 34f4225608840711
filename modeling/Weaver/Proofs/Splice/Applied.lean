import Weaver.Proofs.Code.Freshness
import Weaver.Proofs.Splice.Visit
import Weaver.Splice.Basic

/-!
# What an injection puts into a body

`Splice.apply` leaves a body with the run of the injection before the instruction at the site.  The
only label of the run is the new one at its end, and the slot of the wrapper lies above everything
that the body uses.
-/

namespace Weaver.Splice

variable {splice : Splice} {body woven : Body} {index : Nat} {routine : MethodRef}
  {firstArgSlot : Nat} {slot? : Option Nat} {skip : Label}

/-- The instructions of the run in front of its label, if it has one. -/
def unlabelled (splice : Splice) (firstArgSlot : Nat) (routine : MethodRef) (slot? : Option Nat)
    (skip : Label) : List Instr :=
  splice.lead firstArgSlot slot? ++ .call .static routine ::
    (slot?.map fun slot =>
      [.load .reference slot, .call .virtual splice.attachment.wrapper.isCancelled,
        .jump .ifZero skip] ++ leave splice.attachment.returnType slot).getD []

theorem instrs_eq_unlabelled (splice : Splice) (firstArgSlot : Nat) (routine : MethodRef)
    (slot? : Option Nat) (skip : Label) :
    splice.instrs firstArgSlot routine slot? skip =
      splice.unlabelled firstArgSlot routine slot? skip ++
        (slot?.map fun _ => [Instr.label skip]).getD [] := by
  rw [instrs_eq]
  cases slot? <;> simp [unlabelled, settle, check]

theorem label_not_mem_unlabelled {label : Label} :
    Instr.label label ∉ splice.unlabelled firstArgSlot routine slot? skip := by
  have notSource : Instr.label label ≠ splice.source := by
    unfold source
    split <;> simp
  have notLeave : ∀ slot, Instr.label label ∉ leave splice.attachment.returnType slot := by
    intro slot
    unfold leave
    split <;> simp
  cases slot? <;> simp [unlabelled, lead, construct, keep, Run.loadArgs, notSource, notLeave]

/-- The label at the end is the only one of the run. -/
theorem definedAt_instrs {label : Label} {offset : Nat}
    (defined : Code.DefinedAt (splice.instrs firstArgSlot routine slot? skip) label offset) :
    label = skip ∧ offset = (splice.unlabelled firstArgSlot routine slot? skip).length := by
  rw [instrs_eq_unlabelled] at defined
  obtain ⟨behind, atEnd⟩ := defined.of_append label_not_mem_unlabelled
  unfold Code.DefinedAt at atEnd
  cases slot? with
  | none => simp at atEnd
  | some slot =>
      simp only [Option.map_some, Option.getD_some, List.getElem?_singleton] at atEnd
      split at atEnd
      · cases atEnd
        exact ⟨rfl, by omega⟩
      · cases atEnd

theorem le_of_wrapperLocal? {slot : Nat} (kept : splice.wrapperLocal? body = some slot) :
    body.maxLocals ≤ slot ∧ body.requiredMaxLocals ≤ slot := by
  unfold wrapperLocal? at kept
  split at kept
  · cases kept
    exact ⟨Nat.le_max_left _ _, Nat.le_max_right _ _⟩
  · cases kept

/-- What an injection that succeeds finds in a body and puts into it. -/
structure Applied (splice : Splice) (body : Body) (index : Nat) (routine : MethodRef) (depth : Nat)
    (skip : Label) (run : Run) (woven : Body) : Prop where
  analysed : ∃ depths, body.stackDepths = .ok depths ∧ depths[index]? = some (some depth)
  handed : skip.id.toNat = body.code.nextLabel
  made : Run.ofList (splice.instrs body.firstArgSlot routine (splice.wrapperLocal? body) skip) =
    .ok run
  narrow : depth + run.peak ≤ slotLimit
  declarable : grownLocals body (splice.wrapperLocal? body) ≤ slotLimit
  inserted : Inserted body index
    (splice.instrs body.firstArgSlot routine (splice.wrapperLocal? body) skip) woven
  nextLabel_lt : body.code.nextLabel < woven.code.nextLabel
  /-- Nothing else of the body changes. -/
  woven_eq : woven =
    { body with
        code := woven.code
        maxStack := max body.maxStack (depth + run.peak)
        maxLocals := grownLocals body (splice.wrapperLocal? body) }

theorem Applied.maxLocals_eq {depth : Nat} {run : Run}
    (applied : Applied splice body index routine depth skip run woven) :
    woven.maxLocals = grownLocals body (splice.wrapperLocal? body) := by
  rw [applied.woven_eq]

theorem Applied.maxStack_eq {depth : Nat} {run : Run}
    (applied : Applied splice body index routine depth skip run woven) :
    woven.maxStack = max body.maxStack (depth + run.peak) := by
  rw [applied.woven_eq]

/-- The code grows by the run, and the declared bounds by what the run needs. -/
theorem exists_of_insertRun {depth : Nat} {report : Report}
    (spliced : splice.insertRun body index depth routine slot? skip = (.ok report, woven)) :
    ∃ run, Run.ofList (splice.instrs body.firstArgSlot routine slot? skip) = .ok run ∧
      depth + run.peak ≤ slotLimit ∧ index ≤ body.code.instrs.length ∧
      woven.code.instrs = body.code.instrs.take index ++
        splice.instrs body.firstArgSlot routine slot? skip ++ body.code.instrs.drop index ∧
      body.code.nextLabel ≤ woven.code.nextLabel ∧
      woven =
        { body with
            code := woven.code
            maxStack := max body.maxStack (depth + run.peak)
            maxLocals := grownLocals body slot? } ∧
      report = ⟨index, run.instrs.length, depth, slot?⟩ := by
  unfold insertRun at spliced
  split at spliced
  · cases spliced
  · rename_i run made
    split at spliced
    · cases spliced
    · rename_i shallow
      split at spliced
      · cases spliced
      · rename_i code insertedCode
        cases spliced
        obtain ⟨within, instrsEq, nextEq⟩ := Code.insert_eq_ok_iff.mp insertedCode
        rw [Run.instrs_of_ofList made] at instrsEq
        exact ⟨run, made, Nat.le_of_not_lt shallow, within, instrsEq,
          (Code.le_boundFrom _ _).trans_eq nextEq.symm, rfl, rfl⟩

/-- An injection that succeeds inserts its run before the instruction at the site. -/
theorem applied_of_apply {report : Report}
    (applied : splice.apply body index routine = (.ok report, woven)) :
    ∃ depth skip run, Applied splice body index routine depth skip run woven ∧
      report = ⟨index, run.instrs.length, depth, splice.wrapperLocal? body⟩ := by
  unfold apply at applied
  split at applied
  · cases applied
  · rename_i depths analysed
    have unique : Code.UniqueLabels body.code.instrs := by
      apply (Code.labelPositions_isOk_iff body.code).mp
      unfold Body.stackDepths at analysed
      split at analysed
      · cases analysed
      · rename_i positions collected
        exact ⟨positions, collected⟩
    split at applied
    · cases applied
    · rename_i depth known
      dsimp only at applied
      split at applied
      · cases applied
      · rename_i declarable
        split at applied
        · cases applied
        · rename_i skip code handed
          split at applied
          · cases applied
          · rename_i spliced
            cases applied
            obtain ⟨idEq, sameInstrs, nextEq⟩ := Code.newLabel_eq_ok_iff.mp handed
            have fresh := Code.unused_of_nextLabel_le idEq.ge
            obtain ⟨run, made, narrow, within, instrsEq, nextLe, wovenEq, reportEq⟩ :=
              exists_of_insertRun spliced
            dsimp only at within instrsEq nextLe wovenEq
            rw [sameInstrs] at within instrsEq
            have grown : body.maxLocals ≤ woven.maxLocals := by
              rw [wovenEq]
              unfold grownLocals
              split
              · rename_i slot kept
                exact Nat.le_succ_of_le (le_of_wrapperLocal? kept).1
              · exact Nat.le_refl _
            refine ⟨depth, skip, run, ?_, reportEq⟩
            exact
              { analysed := ⟨depths, analysed, Option.join_eq_some_iff.mp known⟩
                handed := idEq
                made
                narrow
                declarable := Nat.le_of_not_lt declarable
                inserted :=
                  { ref_eq := by rw [wovenEq]; rfl
                    access_eq := by rw [wovenEq]
                    stack_le := by rw [wovenEq]; exact Nat.le_max_left _ _
                    locals_le := grown
                    inside := within
                    instrs_eq := instrsEq
                    unique
                    uniqueRun := fun _ _ _ first second =>
                      (definedAt_instrs first).2.trans (definedAt_instrs second).2.symm
                    fresh := by
                      intro label member
                      obtain ⟨offset, defined⟩ := Code.exists_definedAt member
                      rw [(definedAt_instrs defined).1]
                      exact fresh }
                nextLabel_lt := by omega
                woven_eq := wovenEq }

end Weaver.Splice
