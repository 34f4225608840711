import Weaver.Proofs.Code.Labels
import Weaver.Proofs.Highest
import Weaver.Body.Basic

/-!
# What a body has to declare

A body validates if no label is defined twice and every branch has a label to go to.  The locals that
it needs cover its receiver and parameters, which lie one behind the other, and every load and store.
-/

namespace Weaver

theorem forM_eq_ok_iff {α ε : Type} {check : α → Except ε Unit} {items : List α} :
    items.forM check = .ok () ↔ ∀ item ∈ items, check item = .ok () := by
  induction items with
  | nil => simp [pure, Except.pure]
  | cons item rest ih =>
      rw [List.forall_mem_cons, ← ih]
      change (check item >>= fun _ => rest.forM check) = _ ↔ _
      cases check item <;> simp [bind, Except.bind]

/-- A body validates exactly if no label is defined twice and every branch has a label to go to. -/
theorem Body.validate_eq_ok_iff {body : Body} :
    body.validate = .ok () ↔
      Code.UniqueLabels body.code.instrs ∧
        ∀ instr ∈ body.code.instrs, ∀ label, instr.target? = some label →
          Instr.label label ∈ body.code.instrs := by
  rw [← Code.labelPositions_isOk_iff]
  unfold validate
  cases collected : body.code.labelPositions with
  | error fault => simp
  | ok positions =>
      have defined : ∀ label, (positions.lookup label).isSome = true ↔
          Instr.label label ∈ body.code.instrs := by
        intro label
        rw [Option.isSome_iff_exists]
        simp only [Code.lookup_labelPositions collected]
        exact List.mem_iff_getElem?.symm
      simp only [forM_eq_ok_iff, Except.ok.injEq, exists_eq', true_and]
      apply forall₂_congr
      intro instr _
      cases instr.target? with
      | none => simp
      | some label =>
          by_cases member : Instr.label label ∈ body.code.instrs
          · simp [member, (defined label).mpr member]
          · have unknown : positions.lookup label = none := by
              rw [← defined label, Bool.not_eq_true, Option.isSome_eq_false_iff,
                Option.isNone_iff_eq_none] at member
              exact member
            simp [member, unknown]

/-- Parameters that lie one behind the other end where all their slots are counted. -/
theorem Signature.addSlots_le_of_mem_layout {first : Nat} {types : List Ty} {slot : Nat}
    {kind : Kind} (member : (slot, kind) ∈ layout first types) :
    addSlots slot kind.slots ≤ addSlots first (types.foldr (fun ty slots => ty.slots + slots) 0) := by
  induction types generalizing first with
  | nil => cases member
  | cons type rest ih =>
      rw [List.foldr_cons, Ty.slots]
      unfold layout at member
      cases kindEq : type.kind? with
      | none =>
          rw [kindEq] at member
          simpa using ih member
      | some held =>
          rw [kindEq] at member
          simp only [Option.map_some, Option.getD_some]
          rcases List.mem_cons.mp member with same | later
          · cases same
            unfold addSlots
            omega
          · have covered := ih later
            unfold addSlots at covered ⊢
            omega

namespace Body

theorem argumentSlots_eq (body : Body) :
    body.argumentSlots = addSlots body.firstArgSlot body.signature.totalSlots := by
  unfold argumentSlots Signature.argsSize addSlots
  omega

/-- Loading a parameter needs no more locals than the parameters themselves. -/
theorem localBound_le_of_mem_loadArgs {body : Body} {instr : Instr}
    (member : instr ∈ Run.loadArgs body.signature body.firstArgSlot) :
    instr.localBound ≤ body.argumentSlots := by
  obtain ⟨⟨slot, kind⟩, held, rfl⟩ := List.mem_map.mp member
  rw [argumentSlots_eq]
  exact Signature.addSlots_le_of_mem_layout held

theorem one_le_argumentSlots {body : Body} (receives : body.isStatic = false) :
    1 ≤ body.argumentSlots := by
  rw [argumentSlots_eq, firstArgSlot, receives]
  exact Nat.le_min.mpr ⟨Nat.le_add_right _ _, by decide⟩

/-- The locals that a body needs are bounded exactly if its arguments and all that it loads and stores
are. -/
theorem requiredMaxLocals_le_iff {body : Body} {bound : Nat} :
    body.requiredMaxLocals ≤ bound ↔
      body.argumentSlots ≤ bound ∧ ∀ instr ∈ body.code.instrs, instr.localBound ≤ bound :=
  foldl_max_le_iff Instr.localBound body.code.instrs body.argumentSlots bound

end Body

end Weaver
