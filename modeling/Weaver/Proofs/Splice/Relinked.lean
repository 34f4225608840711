import Weaver.Proofs.Body.Relinked
import Weaver.Proofs.Splice.Applied

/-!
# Injections into relinked bodies

An injection that succeeds in one of two relinked bodies succeeds in the other, whatever the routine is
called there, and leaves them relinked: the routine is called by an instruction that stands at the same
place in both.
-/

namespace Weaver

variable {link : MethodRef → MethodRef → Prop}

namespace Run

variable {instrs others : List Instr}

theorem Builder.exists_emit {builder peer next : Builder} {instr other : Instr}
    (same : peer = { builder with emitted := peer.emitted })
    (relinked : Instr.Relinked link instr other) (emitted : builder.emit instr = .ok next) :
    ∃ peerNext, peer.emit other = .ok peerNext ∧
      peerNext = { next with emitted := peerNext.emitted } := by
  have arriveEq : peer.arrive other = { builder.arrive instr with emitted := peer.emitted } := by
    unfold arrive
    rw [relinked.definition?_eq, same]
    dsimp only
    split <;> rfl
  unfold emit at emitted ⊢
  rw [arriveEq]
  unfold extend at emitted ⊢
  rw [relinked.effect_eq, relinked.fallsThrough_eq, relinked.target?_eq]
  split at emitted
  · cases emitted
  · rename_i enough
    cases emitted
    exact ⟨_, if_neg enough, rfl⟩

theorem Builder.exists_emitAll {builder peer last : Builder}
    (same : peer = { builder with emitted := peer.emitted })
    (relinked : Code.Relinked link instrs others)
    (emitted : builder.emitAll instrs = (.ok (), last)) :
    ∃ peerLast, peer.emitAll others = (.ok (), peerLast) ∧
      peerLast = { last with emitted := peerLast.emitted } := by
  induction relinked generalizing builder peer with
  | nil =>
      cases emitted
      exact ⟨peer, rfl, same⟩
  | cons first _ ih =>
      unfold emitAll at emitted ⊢
      split at emitted
      · cases emitted
      · rename_i next once
        obtain ⟨peerNext, peerOnce, sameNext⟩ := exists_emit same first once
        rw [peerOnce]
        exact ih sameNext emitted

/-- A run can be made of relinked instructions, and it has the same peak. -/
theorem exists_ofList {run : Run} (relinked : Code.Relinked link instrs others)
    (made : ofList instrs = .ok run) :
    ∃ peer, ofList others = .ok peer ∧ peer.peak = run.peak := by
  unfold ofList at made ⊢
  split at made
  · cases made
  · rename_i builder emitted
    cases made
    have start : Builder.empty = { Builder.empty with emitted := Builder.empty.emitted } := rfl
    obtain ⟨peer, peerEmitted, same⟩ := Builder.exists_emitAll start relinked emitted
    refine ⟨⟨peer.emitted.toList, peer.peak⟩, ?_, ?_⟩
    · rw [peerEmitted]
    · rw [same]

end Run

namespace Body.Relinked

variable {body other : Body}

/-- The same label is handed out. -/
theorem exists_newLabel {skip : Label} {code : Code} (relinked : Relinked link body other)
    (handed : body.code.newLabel = (.ok skip, code)) :
    ∃ peer, other.code.newLabel = (.ok skip, peer) ∧
      Relinked link { body with code } { other with code := peer } := by
  obtain ⟨idEq, instrsEq, nextEq⟩ := Code.newLabel_eq_ok_iff.mp handed
  rcases asked : other.code.newLabel with ⟨refused | label, peer⟩
  · have exhausted := (Code.newLabel_eq_error_iff.mp asked).1
    rw [relinked.nextLabel_eq, ← idEq] at exhausted
    exact absurd skip.id.toNat_lt (Nat.not_lt_of_le exhausted)
  · obtain ⟨peerId, peerInstrs, peerNext⟩ := Code.newLabel_eq_ok_iff.mp asked
    have sameId : label.id = skip.id :=
      UInt32.toNat_inj.mp (peerId.trans (relinked.nextLabel_eq.trans idEq.symm))
    obtain rfl : label = skip := congrArg Label.mk sameId
    refine ⟨peer, rfl, ?_, ?_, ?_⟩
    · rw [relinked.eq_with]
    · change Code.Relinked link code.instrs peer.instrs
      rw [instrsEq, peerInstrs]
      exact relinked.code
    · exact peerNext.trans ((congrArg Nat.succ relinked.nextLabel_eq).trans nextEq.symm)

/-- Relinked runs can be inserted at the same place. -/
theorem exists_insert {index : Nat} {run peer : List Instr} {code : Code}
    (relinked : Relinked link body other) (runs : Code.Relinked link run peer)
    (inserted : body.code.insert index run = (.ok (), code)) :
    ∃ peerCode, other.code.insert index peer = (.ok (), peerCode) ∧
      Code.Relinked link code.instrs peerCode.instrs ∧ peerCode.nextLabel = code.nextLabel := by
  obtain ⟨within, instrsEq, nextEq⟩ := Code.insert_eq_ok_iff.mp inserted
  have lengthEq : other.code.length = body.code.length := relinked.code.length_eq.symm
  rcases ran : other.code.insert index peer with ⟨refused | ⟨⟩, peerCode⟩
  · have beyond := (Code.insert_eq_error_iff.mp ran).1
    exact absurd within (Nat.not_le_of_lt (lengthEq ▸ beyond))
  · obtain ⟨_, peerInstrs, peerNext⟩ := Code.insert_eq_ok_iff.mp ran
    refine ⟨peerCode, rfl, ?_, ?_⟩
    · rw [instrsEq, peerInstrs]
      exact List.rel_append (List.rel_append (List.forall₂_take _ relinked.code) runs)
        (List.forall₂_drop _ relinked.code)
    · rw [nextEq, peerNext, runs.boundFrom_eq]
      exact congrArg (Code.boundFrom · run) relinked.nextLabel_eq

end Body.Relinked

namespace Splice

variable {splice : Splice} {body other woven : Body} {index depth firstArgSlot : Nat}
  {routine peer : MethodRef} {slot? : Option Nat} {skip : Label} {report : Report}

theorem instrs_relinked (linked : link routine peer) (akin : peer.signature = routine.signature) :
    Code.Relinked link (splice.instrs firstArgSlot routine slot? skip)
      (splice.instrs firstArgSlot peer slot? skip) := by
  rw [instrs_eq, instrs_eq]
  exact List.rel_append (Code.Relinked.refl link _)
    (.cons (.call linked akin) (Code.Relinked.refl link _))

/-- A run that can be put into one of two relinked bodies can be put into the other. -/
theorem exists_insertRun_relinked (relinked : body.Relinked link other)
    (linked : link routine peer) (akin : peer.signature = routine.signature)
    (spliced : splice.insertRun body index depth routine slot? skip = (.ok report, woven)) :
    ∃ peerWoven, splice.insertRun other index depth peer slot? skip = (.ok report, peerWoven) ∧
      woven.Relinked link peerWoven := by
  have slotEq : other.firstArgSlot = body.firstArgSlot := by
    rw [relinked.eq_with]
    rfl
  unfold insertRun at spliced ⊢
  rw [slotEq]
  split at spliced
  · cases spliced
  · rename_i run made
    obtain ⟨peerRun, peerMade, peakEq⟩ := Run.exists_ofList (instrs_relinked linked akin) made
    rw [peerMade]
    dsimp only
    rw [peakEq]
    split at spliced
    · cases spliced
    · rename_i shallow
      rw [if_neg shallow]
      split at spliced
      · cases spliced
      · rename_i code inserted
        cases spliced
        have runs : Code.Relinked link run.instrs peerRun.instrs := by
          rw [Run.instrs_of_ofList made, Run.instrs_of_ofList peerMade]
          exact instrs_relinked linked akin
        obtain ⟨peerCode, peerInserted, instrs, nextLabelEq⟩ := relinked.exists_insert runs inserted
        rw [peerInserted, ← runs.length_eq]
        refine ⟨_, rfl, ?_, instrs, nextLabelEq⟩
        rw [relinked.eq_with]
        rfl

/-- An injection that succeeds in one of two relinked bodies succeeds in the other. -/
theorem exists_apply_relinked (relinked : body.Relinked link other) (linked : link routine peer)
    (akin : peer.signature = routine.signature)
    (applied : splice.apply body index routine = (.ok report, woven)) :
    ∃ peerWoven, splice.apply other index peer = (.ok report, peerWoven) ∧
      woven.Relinked link peerWoven := by
  have slotEq : splice.wrapperLocal? other = splice.wrapperLocal? body := by
    unfold wrapperLocal?
    rw [relinked.requiredMaxLocals_eq, relinked.eq_with]
  have grownEq : grownLocals other (splice.wrapperLocal? body) =
      grownLocals body (splice.wrapperLocal? body) := by
    rw [relinked.eq_with]
    rfl
  unfold apply at applied ⊢
  split at applied
  · cases applied
  · rename_i depths analysed
    rw [relinked.stackDepths_eq analysed]
    dsimp only at applied ⊢
    rw [slotEq, grownEq]
    split at applied
    · cases applied
    · split at applied
      · cases applied
      · rename_i declarable
        rw [if_neg declarable]
        split at applied
        · cases applied
        · rename_i skip code handed
          obtain ⟨peerCode, peerHanded, labelled⟩ := relinked.exists_newLabel handed
          rw [peerHanded]
          dsimp only
          split at applied
          · cases applied
          · rename_i spliced
            cases applied
            obtain ⟨peerWoven, peerSpliced, wovenRelinked⟩ :=
              exists_insertRun_relinked labelled linked akin spliced
            rw [peerSpliced]
            exact ⟨peerWoven, rfl, wovenRelinked⟩

end Splice

end Weaver
