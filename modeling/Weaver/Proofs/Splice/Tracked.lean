import Weaver.Proofs.Code.Tracking
import Weaver.Proofs.Splice.Applied

/-!
# The control flow of an inserted run

An inserted run is straight code or, where listeners may cancel, straight code with one branch over
the instructions that leave the method.  It is entered with nothing on the stack that belongs to it,
and it is passed with nothing on the stack, so that it can stand anywhere.
-/

namespace Weaver

namespace Run.Builder

/-- Straight code with a branch over instructions that leave the method. -/
def guarded (front : List Instr) (cond : Cond) (skip : Label) (exit : List Instr)
    (kind? : Option Kind) : List Instr :=
  front ++ .jump cond skip :: (exit ++ [.ret kind?, .label skip])

variable {front exit : List Instr} {cond : Cond} {skip : Label} {kind? : Option Kind}
  {position : Nat} {instr : Instr} {last : Builder}

theorem length_guarded (front : List Instr) (cond : Cond) (skip : Label) (exit : List Instr)
    (kind? : Option Kind) :
    (guarded front cond skip exit kind?).length = front.length + exit.length + 3 := by
  simp [guarded]
  omega

/-- Every instruction of guarded code is straight, the branch, the return or the label. -/
theorem guarded_cases (here : (guarded front cond skip exit kind?)[position]? = some instr) :
    ((instr ∈ front ∨ instr ∈ exit) ∧ position ≤ front.length + exit.length) ∨
      (position = front.length ∧ instr = .jump cond skip) ∨
      (position = front.length + exit.length + 1 ∧ instr = .ret kind?) ∨
      (position = front.length + exit.length + 2 ∧ instr = .label skip) := by
  unfold guarded at here
  rcases Nat.lt_trichotomy position front.length with before | atBranch | behind
  · rw [List.getElem?_append_left before] at here
    exact .inl ⟨.inl (List.mem_of_getElem? here), by omega⟩
  · subst atBranch
    simp only [List.getElem?_append_right (Nat.le_refl _), Nat.sub_self, List.getElem?_cons_zero,
      Option.some.injEq] at here
    exact .inr (.inl ⟨rfl, here.symm⟩)
  · obtain ⟨offset, rfl⟩ := Nat.exists_eq_add_of_lt behind
    rw [List.getElem?_append_right (by omega), Nat.add_assoc, Nat.add_sub_cancel_left,
      List.getElem?_cons_succ] at here
    rcases Nat.lt_trichotomy offset exit.length with inside | atReturn | later
    · rw [List.getElem?_append_left inside] at here
      exact .inl ⟨.inr (List.mem_of_getElem? here), by omega⟩
    · subst atReturn
      simp only [List.getElem?_append_right (Nat.le_refl _), Nat.sub_self,
        List.getElem?_cons_zero, Option.some.injEq] at here
      exact .inr (.inr (.inl ⟨by omega, here.symm⟩))
    · obtain ⟨more, rfl⟩ := Nat.exists_eq_add_of_lt later
      rw [List.getElem?_append_right (by omega), Nat.add_assoc, Nat.add_sub_cancel_left,
        List.getElem?_cons_succ] at here
      cases more with
      | zero => exact .inr (.inr (.inr ⟨by omega, (Option.some.inj here).symm⟩))
      | succ more => cases here

theorem getElem?_guarded_branch :
    (guarded front cond skip exit kind?)[front.length]? = some (.jump cond skip) := by
  simp [guarded]

theorem getElem?_guarded_return :
    (guarded front cond skip exit kind?)[front.length + exit.length + 1]? =
      some (.ret kind?) := by
  rw [guarded, List.getElem?_append_right (by omega), Nat.add_assoc, Nat.add_sub_cancel_left,
    List.getElem?_cons_succ, List.getElem?_append_right (Nat.le_refl _), Nat.sub_self]
  rfl

theorem definedAt_guarded :
    Code.DefinedAt (guarded front cond skip exit kind?) skip
      (front.length + exit.length + 2) := by
  rw [Code.DefinedAt, guarded, List.getElem?_append_right (by omega), Nat.add_assoc,
    Nat.add_sub_cancel_left, List.getElem?_cons_succ, List.getElem?_append_right (by omega),
    Nat.add_sub_cancel_left]
  rfl

/-- The branch is the only one. -/
theorem branch_of_guarded (straightFront : Straight front) (straightExit : Straight exit)
    {label : Label} (here : (guarded front cond skip exit kind?)[position]? = some instr)
    (target : instr.target? = some label) : position = front.length ∧ label = skip := by
  rcases guarded_cases here with ⟨member, _⟩ | ⟨atBranch, rfl⟩ | ⟨_, rfl⟩ | ⟨_, rfl⟩
  · have straight : instr.target? = none :=
      member.elim (fun inFront => (straightFront instr inFront).2.1)
        fun inExit => (straightExit instr inExit).2.1
    cases straight.symm.trans target
  · cases target
    exact ⟨atBranch, rfl⟩
  · cases target
  · cases target

/-- The label is the only one, and stands at the end. -/
theorem label_of_guarded (straightFront : Straight front) (straightExit : Straight exit)
    {label : Label} (defined : Code.DefinedAt (guarded front cond skip exit kind?) label position) :
    position = front.length + exit.length + 2 := by
  rcases guarded_cases defined with ⟨member, _⟩ | ⟨_, other⟩ | ⟨_, other⟩ | ⟨atEnd, _⟩
  · have straight : (Instr.label label).definition? = none :=
      member.elim (fun inFront => (straightFront _ inFront).1) fun inExit => (straightExit _ inExit).1
    cases straight
  · cases other
  · cases other
  · exact atEnd

/-- In front of the return, control falls through. -/
theorem falls_of_guarded (conditional : cond ≠ .always) (straightFront : Straight front)
    (straightExit : Straight exit)
    (here : (guarded front cond skip exit kind?)[position]? = some instr)
    (before : position ≤ front.length + exit.length) : instr.fallsThrough = true := by
  rcases guarded_cases here with ⟨member, _⟩ | ⟨_, rfl⟩ | ⟨atReturn, _⟩ | ⟨atEnd, _⟩
  · exact member.elim (fun inFront => (straightFront instr inFront).2.2)
      fun inExit => (straightExit instr inExit).2.2
  · cases cond <;> first | rfl | exact absurd rfl conditional
  · omega
  · omega

/-- Guarded code is coherent. -/
theorem coherent_guarded (conditional : cond ≠ .always) (straightFront : Straight front)
    (straightExit : Straight exit)
    (emitted : empty.emitAll (guarded front cond skip exit kind?) = (.ok (), last)) :
    Coherent (guarded front cond skip exit kind?) where
  live := by
    intro position instr here
    by_cases inside : position ≤ front.length + exit.length + 1
    · refine .inr (reachable_stage emitted ?_ ?_)
      · rw [length_guarded]
        omega
      · intro origin other earlier there
        exact falls_of_guarded conditional straightFront straightExit there (by omega)
    · rcases guarded_cases here with ⟨_, before⟩ | ⟨before, _⟩ | ⟨before, _⟩ | ⟨_, rfl⟩
      · omega
      · omega
      · omega
      · exact .inl rfl
  forward := by
    intro position instr label target here branches defined
    have atBranch := (branch_of_guarded straightFront straightExit here branches).1
    have atEnd := label_of_guarded straightFront straightExit defined
    omega
  meets := by
    intro position instr label depth here branches noted
    have inside : position < (guarded front cond skip exit kind?).length :=
      (List.getElem?_eq_some_iff.mp here).1
    obtain ⟨origin, earlier, other, there, also, _⟩ :=
      exists_branch_of_noted emitted (Nat.le_of_lt inside) noted
    have first := (branch_of_guarded straightFront straightExit there also).1
    have second := (branch_of_guarded straightFront straightExit here branches).1
    omega
  joins := by
    intro position label depth defined _ reachable
    obtain rfl := label_of_guarded straightFront straightExit defined
    obtain ⟨_, _, _, reachableEq, _⟩ := stage_succ emitted getElem?_guarded_return
    rw [reachableEq] at reachable
    simp [Instr.fallsThrough, Instr.flow] at reachable

/-- Behind guarded code the depth is that of its branch. -/
theorem behind_guarded (conditional : cond ≠ .always) (straightFront : Straight front)
    (straightExit : Straight exit)
    (emitted : empty.emitAll (guarded front cond skip exit kind?) = (.ok (), last)) :
    last.reachable = true ∧ last.depth = depthBehind 0 front - cond.pops := by
  have coherent := coherent_guarded conditional straightFront straightExit emitted
  obtain ⟨comes, depthEq⟩ := coherent.arrival_of_branch emitted getElem?_guarded_branch rfl
    definedAt_guarded
  obtain ⟨_, stageDepth, _, stageReachable, _⟩ := stage_succ emitted definedAt_guarded
  rw [← stage_length emitted, length_guarded]
  refine ⟨?_, ?_⟩
  · rw [stageReachable, comes]
    rfl
  · have behindFront := (straightFront.emitAll (emitAll_stage emitted)).1
    have atBranch : arrival (guarded front cond skip exit kind?) front.length =
        stage (guarded front cond skip exit kind?) front.length :=
      arrival_of_unlabelled getElem?_guarded_branch rfl
    have low : (stage (guarded front cond skip exit kind?) front.length).depth - cond.pops ≤
        slotLimit :=
      (Nat.sub_le _ _).trans (depth_stage_le emitted (by rw [length_guarded]; omega))
    rw [stageDepth, depthEq, atBranch]
    calc (Instr.label skip).effect.after ((Instr.jump cond skip).effect.after
          (stage (guarded front cond skip exit kind?) front.length).depth)
        = (stage (guarded front cond skip exit kind?) front.length).depth - cond.pops := by
          have branch : (Instr.jump cond skip).effect.after
              (stage (guarded front cond skip exit kind?) front.length).depth =
                (stage (guarded front cond skip exit kind?) front.length).depth - cond.pops :=
            Effect.after_eq low
          rw [branch]
          exact Effect.after_eq low
      _ = depthBehind 0 front - cond.pops := congrArg (· - cond.pops) behindFront

theorem depthBehind_append (depth : Nat) (front back : List Instr) :
    depthBehind depth (front ++ back) = depthBehind (depthBehind depth front) back :=
  List.foldl_append

theorem depthBehind_loads {depth : Nat} (counted : depth ≤ slotLimit) (loads : List (Nat × Kind)) :
    depthBehind depth (loads.map fun (slot, kind) => .load kind slot) =
      wrapSlots (depth + (loads.map fun load => load.2.slots).sum) := by
  induction loads generalizing depth with
  | nil => exact (wrapSlots_of_le counted).symm
  | cons load rest ih =>
      rw [List.map_cons, List.map_cons, List.sum_cons, ← Nat.add_assoc, ← wrapSlots_add]
      exact ih (wrapSlots_le _)

end Run.Builder

namespace Splice

open Run.Builder

variable {splice : Splice} {firstArgSlot : Nat} {routine : MethodRef} {slot? : Option Nat}
  {skip : Label}

theorem straight_lead (splice : Splice) (firstArgSlot : Nat) (slot? : Option Nat) :
    Straight (splice.lead firstArgSlot slot?) := by
  have source : splice.source.definition? = none ∧ splice.source.target? = none ∧
      splice.source.fallsThrough = true := by
    unfold Splice.source
    split <;> exact ⟨rfl, rfl, rfl⟩
  have construct : Straight splice.construct := by
    simp only [Splice.construct, Straight, List.forall_mem_cons]
    exact ⟨⟨rfl, rfl, rfl⟩, ⟨rfl, rfl, rfl⟩, ⟨rfl, rfl, rfl⟩, source, ⟨rfl, rfl, rfl⟩,
      ⟨rfl, rfl, rfl⟩, List.forall_mem_nil _⟩
  have kept : Straight ((slot?.map keep).getD []) := by
    cases slot? with
    | none => exact List.forall_mem_nil _
    | some slot =>
        simp only [Option.map_some, Option.getD_some, keep, Straight, List.forall_mem_cons]
        exact ⟨⟨rfl, rfl, rfl⟩, ⟨rfl, rfl, rfl⟩, List.forall_mem_nil _⟩
  have loads : Straight (Run.loadArgs splice.attachment.signature firstArgSlot) := by
    intro instr member
    obtain ⟨load, _, rfl⟩ := List.mem_map.mp member
    exact ⟨rfl, rfl, rfl⟩
  exact (construct.append kept).append loads

theorem depthBehind_kept (splice : Splice) (slot? : Option Nat) :
    depthBehind 0 (splice.construct ++ (slot?.map keep).getD []) = 1 := by
  have source : splice.source.effect = ⟨0, 1⟩ := by
    unfold Splice.source
    split <;> rfl
  have construct : depthBehind 0 splice.construct = 1 := by
    simp only [Splice.construct, depthBehind, List.foldl_cons, List.foldl_nil, source]
    rfl
  rw [depthBehind_append, construct]
  cases slot? <;> rfl

/-- The dispatch call finds the wrapper and the arguments. -/
theorem depthBehind_lead (splice : Splice) (firstArgSlot : Nat) (slot? : Option Nat) :
    depthBehind 0 (splice.lead firstArgSlot slot?) =
      wrapSlots (splice.attachment.signature.totalSlots + 1) := by
  rw [lead, depthBehind_append, depthBehind_kept, Run.loadArgs, depthBehind_loads (by decide),
    Signature.sum_parameterSlots, Nat.add_comm]

theorem exists_leave_eq (ret : Ty) (slot : Nat) :
    ∃ exit kind?, leave ret slot = exit ++ [.ret kind?] ∧ Straight exit := by
  unfold leave
  split
  · exact ⟨[], none, rfl, List.forall_mem_nil _⟩
  · rename_i accessor _
    refine ⟨_, some accessor.kind, rfl, ?_⟩
    intro instr member
    simp only [List.mem_append, List.mem_cons, List.not_mem_nil, or_false, List.mem_map] at member
    rcases member with (rfl | rfl) | ⟨className, _, rfl⟩ <;> exact ⟨rfl, rfl, rfl⟩

/-- Code that can stand anywhere: its branches stay inside, it pops only what it pushed, each of its
positions has one depth, and control passes it with nothing on the stack. -/
structure Passable (run : List Instr) : Prop where
  targets : ∀ instr ∈ run, ∀ label, instr.target? = some label → Instr.label label ∈ run
  enough : ∀ {offset depth instr}, Body.Reaches run offset depth → run[offset]? = some instr →
    instr.effect.pops ≤ depth
  agree : ∀ {offset first second}, Body.Reaches run offset first → Body.Reaches run offset second →
    first = second
  ends_iff : ∀ depth, Body.Reaches run run.length depth ↔ depth = 0

/-- A coherent run that a builder ends with nothing on the stack can stand anywhere. -/
theorem passable_of_coherent {run : List Instr} {last : Run.Builder} (coherent : Coherent run)
    (emitted : empty.emitAll run = (.ok (), last))
    (targets : ∀ instr ∈ run, ∀ label, instr.target? = some label → Instr.label label ∈ run)
    (reachable : last.reachable = true) (depthEq : last.depth = 0) : Passable run where
  targets
  enough := coherent.enough emitted
  agree := coherent.agree emitted
  ends_iff := by
    intro depth
    rw [coherent.reaches_length_iff emitted, depthEq]
    exact ⟨fun ends => ends.2.symm, fun same => ⟨reachable, same.symm⟩⟩

/-- A dispatch call that finds its operands takes the wrapper and all arguments. -/
theorem depthBehind_dispatch (slotsEq : routine.signature.totalSlots =
      splice.attachment.signature.totalSlots + 1) (void : routine.signature.ret = .void)
    (enough : (Instr.call .static routine).effect.pops ≤
      wrapSlots (splice.attachment.signature.totalSlots + 1)) (rest : List Instr) :
    depthBehind 0 (splice.lead firstArgSlot slot? ++ .call .static routine :: rest) =
      depthBehind 0 rest := by
  -- The arguments of a call stop at the limit, so a count that wrapped is enough only if it is the
  -- limit itself.
  have pops : (Instr.call .static routine).effect.pops =
      wrapSlots (splice.attachment.signature.totalSlots + 1) := by
    have size : (Instr.call .static routine).effect.pops =
        min (min (splice.attachment.signature.totalSlots + 1) slotLimit + 0) slotLimit := by
      rw [← slotsEq]
      rfl
    have limit := wrapSlots_le (splice.attachment.signature.totalSlots + 1)
    by_cases fits : splice.attachment.signature.totalSlots + 1 ≤ slotLimit
    · rw [wrapSlots_of_le fits]
      omega
    · omega
  have pushes : (Instr.call .static routine).effect.pushes = 0 := by
    simp [Instr.effect, void]
  have taken : (Instr.call .static routine).effect.after
      (wrapSlots (splice.attachment.signature.totalSlots + 1)) = 0 := by
    rw [Effect.after, Effect.slotsAfter, pops, pushes, Nat.sub_self]
    rfl
  rw [depthBehind_append, depthBehind_lead]
  exact congrArg (depthBehind · rest) taken

theorem straight_instrs (splice : Splice) (firstArgSlot : Nat) (routine : MethodRef)
    (skip : Label) : Straight (splice.instrs firstArgSlot routine none skip) := by
  rw [instrs_eq]
  apply (straight_lead splice firstArgSlot none).append
  intro instr member
  cases List.mem_singleton.mp member
  exact ⟨rfl, rfl, rfl⟩

/-- A run with a check is guarded code. -/
theorem exists_instrs_eq_guarded (splice : Splice) (firstArgSlot : Nat) (routine : MethodRef)
    (slot : Nat) (skip : Label) :
    ∃ ask exit kind?,
      splice.instrs firstArgSlot routine (some slot) skip =
        guarded (splice.lead firstArgSlot (some slot) ++ .call .static routine :: ask) .ifZero skip
          exit kind? ∧
      Straight (splice.lead firstArgSlot (some slot) ++ .call .static routine :: ask) ∧
      Straight exit ∧ depthBehind 0 ask = 1 := by
  obtain ⟨exit, kind?, leaveEq, straight⟩ := exists_leave_eq splice.attachment.returnType slot
  refine ⟨[.load .reference slot, .call .virtual splice.attachment.wrapper.isCancelled], exit, kind?,
    ?_, ?_, straight, rfl⟩
  · have settleEq : splice.settle (some slot) skip = splice.check slot skip := rfl
    rw [instrs_eq, settleEq, check, leaveEq, guarded]
    simp
  · apply (straight_lead splice firstArgSlot (some slot)).append
    intro instr member
    rcases List.mem_cons.mp member with rfl | inAsk
    · exact ⟨rfl, rfl, rfl⟩
    · rcases List.mem_pair.mp inAsk with rfl | rfl <;> exact ⟨rfl, rfl, rfl⟩

/-- A run that can be emitted is coherent. -/
theorem coherent_instrs {last : Run.Builder}
    (emitted : empty.emitAll (splice.instrs firstArgSlot routine slot? skip) = (.ok (), last)) :
    Coherent (splice.instrs firstArgSlot routine slot? skip) := by
  cases slot? with
  | none => exact (straight_instrs splice firstArgSlot routine skip).coherent emitted
  | some slot =>
      obtain ⟨ask, exit, kind?, instrsEq, straightFront, straightExit, _⟩ :=
        exists_instrs_eq_guarded splice firstArgSlot routine slot skip
      rw [instrsEq] at emitted ⊢
      exact coherent_guarded (by decide) straightFront straightExit emitted

/-- A run that can be emitted supplies its dispatch call. -/
theorem enough_of_emitted {last : Run.Builder}
    (emitted : empty.emitAll (splice.instrs firstArgSlot routine slot? skip) = (.ok (), last)) :
    (Instr.call .static routine).effect.pops ≤
      wrapSlots (splice.attachment.signature.totalSlots + 1) := by
  rw [instrs_eq] at emitted
  have behindLead := ((straight_lead splice firstArgSlot slot?).emitAll (emitAll_stage emitted)).1
  have atCall : (splice.lead firstArgSlot slot? ++ .call .static routine ::
      splice.settle slot? skip)[(splice.lead firstArgSlot slot?).length]? =
        some (.call .static routine) := by
    simp
  have enough := (stage_succ emitted atCall).1
  rw [arrival_of_unlabelled atCall rfl, behindLead] at enough
  exact depthBehind_lead splice firstArgSlot slot? ▸ enough

/-- Parameters that can be counted are still counted with the wrapper, if a run was made for a routine
that takes them all. -/
theorem Applied.counted {body woven : Body} {index depth : Nat} {run : Run}
    (effect : Applied splice body index routine depth skip run woven)
    (slotsEq : routine.signature.totalSlots = splice.attachment.signature.totalSlots + 1)
    (fits : splice.attachment.signature.totalSlots ≤ slotLimit) :
    splice.attachment.signature.totalSlots + 1 ≤ slotLimit := by
  obtain ⟨last, emitted, _⟩ := exists_emitAll_of_ofList effect.made
  have enough := enough_of_emitted emitted
  have pops : (Instr.call .static routine).effect.pops =
      min (min (splice.attachment.signature.totalSlots + 1) slotLimit + 0) slotLimit := by
    rw [← slotsEq]
    rfl
  by_contra high
  have all : splice.attachment.signature.totalSlots + 1 = slotLimit + 1 := by omega
  rw [pops, all] at enough
  exact absurd enough (by decide)

/-- The run of an injection can stand anywhere, and its peak is the highest depth in it. -/
theorem passable_instrs {run : Run} (slotsEq : routine.signature.totalSlots =
      splice.attachment.signature.totalSlots + 1) (void : routine.signature.ret = .void)
    (made : Run.ofList (splice.instrs firstArgSlot routine slot? skip) = .ok run) :
    Passable (splice.instrs firstArgSlot routine slot? skip) ∧
      IsGreatest (Body.heights (splice.instrs firstArgSlot routine slot? skip)) run.peak := by
  obtain ⟨last, emitted, peakEq⟩ := exists_emitAll_of_ofList made
  rw [peakEq]
  have nonempty : splice.instrs firstArgSlot routine slot? skip ≠ [] := by
    rw [instrs_eq]
    simp
  have coherent := coherent_instrs emitted
  have enough := enough_of_emitted emitted
  cases slot? with
  | none =>
      have straight := straight_instrs splice firstArgSlot routine skip
      obtain ⟨depthEq, reachableEq, _⟩ := straight.emitAll emitted
      refine ⟨passable_of_coherent coherent emitted ?_ reachableEq ?_,
        coherent.isGreatest_peak emitted nonempty⟩
      · intro instr member label target
        cases (straight instr member).2.1.symm.trans target
      · rw [depthEq, instrs_eq]
        exact depthBehind_dispatch slotsEq void enough []
  | some slot =>
      obtain ⟨ask, exit, kind?, instrsEq, straightFront, straightExit, askEq⟩ :=
        exists_instrs_eq_guarded splice firstArgSlot routine slot skip
      rw [instrsEq] at emitted coherent nonempty ⊢
      have conditional : Cond.ifZero ≠ .always := by decide
      obtain ⟨reachable, depthEq⟩ :=
        behind_guarded conditional straightFront straightExit emitted
      refine ⟨passable_of_coherent coherent emitted ?_ reachable ?_,
        coherent.isGreatest_peak emitted nonempty⟩
      · intro instr member label target
        obtain ⟨position, here⟩ := List.mem_iff_getElem?.mp member
        rw [(branch_of_guarded straightFront straightExit here target).2]
        exact definedAt_guarded.mem
      · rw [depthEq, depthBehind_dispatch slotsEq void enough, askEq]
        rfl

end Splice

end Weaver
