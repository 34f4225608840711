import Weaver.Proofs.Splice.Tracked

/-!
# Refused injections

An injection is refused for the body and the site before anything changes.  Behind that a label is
handed out, and two causes are left for a refusal: a dispatch routine for which the run cannot be made,
and a stack that would grow too high.  The body is then as it was but for the label, which is spent.
A run cannot be made if the routine takes more than the wrapper and the arguments, or if it leaves so
much of them that the depths behind it cannot be counted.
-/

namespace Weaver

namespace Run.Builder

/-- The instructions are no labels, and each finds its operands behind those in front of it. -/
def Supplied : Nat → List Instr → Prop
  | _, [] => True
  | depth, instr :: rest =>
      instr.definition? = none ∧ instr.effect.pops ≤ depth ∧
        Supplied (instr.effect.after depth) rest

theorem supplied_append {depth : Nat} {front back : List Instr} :
    Supplied depth (front ++ back) ↔
      Supplied depth front ∧ Supplied (depthBehind depth front) back := by
  induction front generalizing depth with
  | nil => exact (and_iff_right trivial).symm
  | cons instr rest ih =>
      rw [List.cons_append, Supplied, Supplied, ih, and_assoc, and_assoc]
      rfl

theorem supplied_loads (depth : Nat) (loads : List (Nat × Kind)) :
    Supplied depth (loads.map fun (slot, kind) => .load kind slot) := by
  induction loads generalizing depth with
  | nil => trivial
  | cons load rest ih => exact ⟨rfl, Nat.zero_le _, ih _⟩

variable {front rest : List Instr} {instr : Instr}

/-- Instructions that find their operands are emitted. -/
theorem exists_emitAll_of_supplied (builder : Builder)
    (supplied : Supplied builder.depth front) :
    ∃ last, builder.emitAll front = (.ok (), last) ∧
      last.depth = depthBehind builder.depth front := by
  induction front generalizing builder with
  | nil => exact ⟨builder, rfl, rfl⟩
  | cons instr rest ih =>
      obtain ⟨unlabelled, enough, later⟩ := supplied
      have once : builder.emit instr = builder.extend instr := by
        simp [emit, arrive, unlabelled]
      obtain ⟨next, extended⟩ : ∃ next, builder.extend instr = .ok next :=
        ⟨_, extend_eq_ok_iff.mpr ⟨enough, rfl⟩⟩
      obtain ⟨_, nextEq⟩ := extend_eq_ok_iff.mp extended
      have depthEq : next.depth = instr.effect.after builder.depth := by rw [nextEq]
      obtain ⟨last, emitted, lastEq⟩ := ih next (depthEq ▸ later)
      refine ⟨last, emitAll_cons_iff.mpr ⟨next, once.trans extended, emitted⟩, ?_⟩
      rw [lastEq, depthEq]
      rfl

/-- An instruction that pops more than those in front of it left is refused. -/
theorem emitAll_of_overdrawn (builder : Builder) (supplied : Supplied builder.depth front)
    (unlabelled : instr.definition? = none)
    (scarce : depthBehind builder.depth front < instr.effect.pops) :
    (builder.emitAll (front ++ instr :: rest)).1 =
      .error (.popsBelowRun instr (depthBehind builder.depth front)) := by
  obtain ⟨last, emitted, depthEq⟩ := exists_emitAll_of_supplied builder supplied
  rw [← depthEq] at scarce ⊢
  have refused : last.emit instr = .error (.popsBelowRun instr last.depth) := by
    rw [emit, arrive, unlabelled]
    exact if_pos scarce
  rw [emitAll_append_eq emitted, emitAll, refused]

/-- Instructions are refused for their operands only. -/
theorem popsBelowRun_of_emitAll {instrs : List Instr} {builder last : Builder} {cause : Code.Fault}
    (refused : builder.emitAll instrs = (.error cause, last)) :
    ∃ instr height, cause = .popsBelowRun instr height := by
  induction instrs generalizing builder with
  | nil => cases refused
  | cons instr rest ih =>
      unfold emitAll at refused
      split at refused
      · rename_i unmet
        cases refused
        unfold emit extend at unmet
        split at unmet
        · cases unmet
          exact ⟨_, _, rfl⟩
        · cases unmet
      · exact ih refused

end Run.Builder

namespace Splice

open Run.Builder

variable {splice : Splice} {body after : Body} {index depth firstArgSlot : Nat}
  {routine : MethodRef} {slot? : Option Nat} {skip : Label} {fault : SynthesisFault}

theorem supplied_lead (splice : Splice) (firstArgSlot : Nat) (slot? : Option Nat) :
    Supplied 0 (splice.lead firstArgSlot slot?) := by
  have source : splice.source.definition? = none ∧ splice.source.effect = ⟨0, 1⟩ := by
    unfold Splice.source
    split <;> exact ⟨rfl, rfl⟩
  have construct : Supplied 0 splice.construct := by
    simp only [Splice.construct, Supplied, source]
    exact ⟨rfl, Nat.le_refl 0, rfl, Nat.le_refl 1, rfl, Nat.zero_le _, trivial, Nat.zero_le _, rfl,
      Nat.zero_le _, rfl, Nat.le_succ 4, trivial⟩
  have kept : Supplied (depthBehind 0 splice.construct) ((slot?.map keep).getD []) := by
    have built : depthBehind 0 splice.construct = 1 := depthBehind_kept splice none
    rw [built]
    cases slot? with
    | none => trivial
    | some slot => exact ⟨rfl, Nat.le_refl 1, rfl, Nat.zero_le _, trivial⟩
  rw [lead, supplied_append, supplied_append]
  exact ⟨⟨construct, kept⟩, supplied_loads _ _⟩

/-- Casts find the reference that they are for. -/
theorem supplied_casts {depth : Nat} (classes : List String) (positive : 0 < depth)
    (counted : depth ≤ slotLimit) :
    Supplied depth (classes.map .checkCast) ∧ depthBehind depth (classes.map .checkCast) = depth := by
  induction classes with
  | nil => exact ⟨trivial, rfl⟩
  | cons className rest ih =>
      have same : (Instr.checkCast className).effect.after depth = depth := by
        have slots : (Instr.checkCast className).effect.slotsAfter depth = depth :=
          Nat.sub_add_cancel positive
        rw [Effect.after_eq (slots.trans_le counted), slots]
      rw [List.map_cons, Supplied, depthBehind, List.foldl_cons, same]
      exact ⟨⟨rfl, positive, ih.1⟩, ih.2⟩

theorem after_push {effect : Effect} (pushEq : effect = ⟨0, 1⟩) {depth : Nat}
    (room : depth + 1 ≤ slotLimit) : effect.after depth = depth + 1 := by
  cases pushEq
  exact Effect.after_eq room

theorem supplied_leave {depth : Nat} (room : depth + 2 ≤ slotLimit) (ret : Ty) (slot : Nat) :
    Supplied depth (leave ret slot) := by
  unfold leave
  cases kindEq : ret.kind? with
  | none =>
      have voided : Wrapper.returnAccessor? ret = none := by
        simp [Wrapper.returnAccessor?, kindEq]
      rw [voided]
      exact ⟨rfl, Nat.zero_le _, trivial⟩
  | some kind =>
      obtain ⟨accessor, known, rfl, paramsEq, retEq, _⟩ := Machine.exists_returnAccessor kindEq
      have pops : (Instr.call .virtual accessor.method).effect.pops = 1 := by
        simp [Instr.effect, Instr.callPops, Signature.argsSize, Signature.totalSlots, paramsEq]
        rfl
      have pushes : (Instr.call .virtual accessor.method).effect.pushes = accessor.kind.slots := by
        simp [Instr.effect, Ty.slots, retEq]
      have counted : depth + accessor.kind.slots ≤ slotLimit :=
        (Nat.add_le_add_left accessor.kind.slots_le_two depth).trans room
      have loaded : (Instr.load .reference slot).effect.after depth = depth + 1 :=
        after_push rfl (Nat.le_of_succ_le room)
      have asked : depthBehind depth [.load .reference slot, .call .virtual accessor.method] =
          depth + accessor.kind.slots := by
        have slots : (Instr.call .virtual accessor.method).effect.slotsAfter (depth + 1) =
            depth + accessor.kind.slots := by
          rw [Effect.slotsAfter, pops, pushes, Nat.add_sub_cancel]
        rw [depthBehind, List.foldl_cons, List.foldl_cons, List.foldl_nil, loaded,
          Effect.after_eq (slots.trans_le counted), slots]
      have positive : 0 < depth + accessor.kind.slots :=
        Nat.lt_of_lt_of_le accessor.kind.slots_pos (Nat.le_add_left _ _)
      obtain ⟨casts, behind⟩ := supplied_casts accessor.cast.toList positive counted
      rw [known]
      refine supplied_append.mpr ⟨supplied_append.mpr ⟨?_, asked ▸ casts⟩, ?_⟩
      · refine ⟨rfl, Nat.zero_le _, rfl, ?_, trivial⟩
        rw [loaded, pops]
        exact Nat.le_add_left 1 depth
      · rw [depthBehind_append, asked, behind]
        exact ⟨rfl, Nat.le_add_left _ _, trivial⟩

/-- The slots that the dispatch call finds on the stack. -/
abbrev supply (splice : Splice) : Nat := wrapSlots (splice.attachment.signature.totalSlots + 1)

/-- The dispatch call finds what it takes, and leaves room for the check behind it. -/
structure Serviceable (splice : Splice) (routine : MethodRef) : Prop where
  enough : (Instr.call .static routine).effect.pops ≤ splice.supply
  room : (Instr.call .static routine).effect.after splice.supply + 2 ≤ slotLimit

/-- Behind a dispatch call that finds its operands and leaves room, all others find theirs. -/
theorem Serviceable.supplied (serviceable : Serviceable splice routine) (firstArgSlot : Nat)
    (slot? : Option Nat) (skip : Label) :
    Supplied 0 (splice.unlabelled firstArgSlot routine slot? skip) := by
  rw [unlabelled, supplied_append, depthBehind_lead]
  refine ⟨supplied_lead splice firstArgSlot slot?, rfl, serviceable.enough, ?_⟩
  cases slot? with
  | none => trivial
  | some slot =>
      have room := serviceable.room
      generalize (Instr.call .static routine).effect.after splice.supply = left at room ⊢
      have loaded : (Instr.load .reference slot).effect.after left = left + 1 :=
        after_push rfl (Nat.le_of_succ_le room)
      have asked : (Instr.call .virtual splice.attachment.wrapper.isCancelled).effect.after
          (left + 1) = left + 1 :=
        Effect.after_eq (Nat.le_of_succ_le room)
      have branched : (Instr.jump .ifZero skip).effect.after (left + 1) = left :=
        Effect.after_eq ((Nat.le_add_right left 2).trans room)
      have behind : depthBehind left [.load .reference slot,
          .call .virtual splice.attachment.wrapper.isCancelled, .jump .ifZero skip] = left := by
        rw [depthBehind, List.foldl_cons, List.foldl_cons, List.foldl_cons, List.foldl_nil, loaded,
          asked, branched]
      refine supplied_append.mpr ⟨⟨rfl, Nat.zero_le _, rfl, ?_, rfl, ?_, trivial⟩, ?_⟩
      · rw [loaded]
        exact Nat.le_add_left 1 left
      · rw [loaded, asked]
        exact Nat.le_add_left 1 left
      · rw [behind]
        exact supplied_leave room _ _

/-- The run can be made if the routine takes no more than the wrapper and the arguments. -/
theorem Serviceable.exists_run (serviceable : Serviceable splice routine) (firstArgSlot : Nat)
    (slot? : Option Nat) (skip : Label) :
    ∃ run, Run.ofList (splice.instrs firstArgSlot routine slot? skip) = .ok run := by
  obtain ⟨last, emitted, _⟩ := exists_emitAll_of_supplied .empty
    (serviceable.supplied firstArgSlot slot? skip)
  obtain ⟨final, ended⟩ : ∃ final, last.emitAll ((slot?.map fun _ => [Instr.label skip]).getD []) =
      (.ok (), final) := by
    cases slot? with
    | none => exact ⟨last, rfl⟩
    | some slot =>
        exact ⟨_, emitAll_cons_iff.mpr ⟨_, extend_eq_ok_iff.mpr ⟨Nat.zero_le _, rfl⟩, rfl⟩⟩
  rw [instrs_eq_unlabelled, Run.ofList, emitAll_append emitted ended]
  exact ⟨_, rfl⟩

/-- A routine that takes more is refused. -/
theorem ofList_of_overdrawn (scarce : splice.supply < (Instr.call .static routine).effect.pops) :
    Run.ofList (splice.instrs firstArgSlot routine slot? skip) =
      .error (.popsBelowRun (.call .static routine) splice.supply) := by
  have behind := depthBehind_lead splice firstArgSlot slot?
  have refused : (empty.emitAll (splice.lead firstArgSlot slot? ++
      .call .static routine :: splice.settle slot? skip)).1 =
        .error (.popsBelowRun (.call .static routine) splice.supply) := by
    rw [supply, ← behind] at scarce ⊢
    exact emitAll_of_overdrawn .empty (supplied_lead splice firstArgSlot slot?) rfl scarce
  rw [instrs_eq, Run.ofList]
  split
  · rename_i emitted
    rw [emitted] at refused
    cases refused
    rfl
  · rename_i emitted
    rw [emitted] at refused
    cases refused

/-- A run is not made for its routine, or because the depths behind it cannot be counted. -/
theorem ofList_error_cases {cause : Code.Fault}
    (unmade : Run.ofList (splice.instrs firstArgSlot routine slot? skip) = .error cause) :
    (splice.supply < (Instr.call .static routine).effect.pops ∧
      cause = .popsBelowRun (.call .static routine) splice.supply) ∨
    (slotLimit < (Instr.call .static routine).effect.after splice.supply + 2 ∧
      ∃ instr height, cause = .popsBelowRun instr height) := by
  rcases Nat.lt_or_ge splice.supply (Instr.call .static routine).effect.pops with scarce | enough
  · rw [ofList_of_overdrawn scarce] at unmade
    cases unmade
    exact .inl ⟨scarce, rfl⟩
  · rcases Nat.lt_or_ge slotLimit ((Instr.call .static routine).effect.after splice.supply + 2)
      with full | room
    · refine .inr ⟨full, ?_⟩
      unfold Run.ofList at unmade
      split at unmade
      · rename_i emitted
        cases unmade
        exact popsBelowRun_of_emitAll emitted
      · cases unmade
    · obtain ⟨run, made⟩ := Serviceable.exists_run ⟨enough, room⟩ firstArgSlot slot? skip
      rw [made] at unmade
      cases unmade

/-- Why an injection is refused, and the body that it leaves. -/
inductive Refusal (splice : Splice) (body : Body) (index : Nat) (routine : MethodRef) :
    SynthesisFault → Body → Prop
  | analysis {cause} (refused : body.stackDepths = .error cause) :
      Refusal splice body index routine (.analysis cause) body
  | unreachable {depths} (analysed : body.stackDepths = .ok depths)
      (unknown : depths[index]?.join = none) :
      Refusal splice body index routine (.unreachableSite index) body
  | locals (exhausted : slotLimit < grownLocals body (splice.wrapperLocal? body)) :
      Refusal splice body index routine .localsExhausted body
  | labels (exhausted : UInt32.size ≤ body.code.nextLabel) :
      Refusal splice body index routine (.run .labelsExhausted) body
  /-- The routine takes more than the wrapper and the arguments. -/
  | overdrawn {skip code} (handed : body.code.newLabel = (.ok skip, code))
      (scarce : splice.supply < (Instr.call .static routine).effect.pops) :
      Refusal splice body index routine
        (.run (.popsBelowRun (.call .static routine) splice.supply)) { body with code }
  /-- The routine leaves so much of them that the depths behind it cannot be counted. -/
  | overrun {skip code instr height} (handed : body.code.newLabel = (.ok skip, code))
      (full : slotLimit < (Instr.call .static routine).effect.after splice.supply + 2)
      (unmade : Run.ofList (splice.instrs body.firstArgSlot routine (splice.wrapperLocal? body)
        skip) = .error (.popsBelowRun instr height)) :
      Refusal splice body index routine (.run (.popsBelowRun instr height)) { body with code }
  /-- The operands at the site and those of the run together are too many. -/
  | stack {skip code depths depth run} (handed : body.code.newLabel = (.ok skip, code))
      (analysed : body.stackDepths = .ok depths) (known : depths[index]? = some (some depth))
      (made : Run.ofList (splice.instrs body.firstArgSlot routine (splice.wrapperLocal? body)
        skip) = .ok run)
      (high : slotLimit < depth + run.peak) :
      Refusal splice body index routine .stackExhausted { body with code }

/-- A run is refused because it cannot be made or for its height, and the body stays. -/
theorem insertRun_error_cases (within : index ≤ body.code.length)
    (refused : splice.insertRun body index depth routine slot? skip = (.error fault, after)) :
    after = body ∧
      ((∃ cause, Run.ofList (splice.instrs body.firstArgSlot routine slot? skip) = .error cause ∧
          fault = .run cause) ∨
        ∃ run, Run.ofList (splice.instrs body.firstArgSlot routine slot? skip) = .ok run ∧
          slotLimit < depth + run.peak ∧ fault = .stackExhausted) := by
  unfold insertRun at refused
  split at refused
  · rename_i cause unmade
    cases refused
    exact ⟨rfl, .inl ⟨cause, unmade, rfl⟩⟩
  · rename_i run made
    split at refused
    · rename_i high
      cases refused
      exact ⟨rfl, .inr ⟨run, made, high, rfl⟩⟩
    · split at refused
      · rename_i ran
        exact absurd within (Nat.not_le_of_lt (Code.insert_eq_error_iff.mp ran).1)
      · cases refused

/-- An injection that fails is refused for one of these reasons. -/
theorem refusal_of_apply {error : Error}
    (failed : splice.apply body index routine = (.error error, after)) :
    ∃ fault, error = .synthesis body.text fault ∧
      Refusal splice body index routine fault after := by
  unfold apply at failed
  split at failed
  · rename_i refused
    cases failed
    exact ⟨_, rfl, .analysis refused⟩
  · rename_i depths analysed
    split at failed
    · rename_i unknown
      cases failed
      exact ⟨_, rfl, .unreachable analysed unknown⟩
    · rename_i depth joined
      have known : depths[index]? = some (some depth) := Option.join_eq_some_iff.mp joined
      dsimp only at failed
      split at failed
      · rename_i exhausted
        cases failed
        exact ⟨_, rfl, .locals exhausted⟩
      · split at failed
        · rename_i cause spent
          obtain ⟨exhausted, rfl, rfl⟩ := Code.newLabel_eq_error_iff.mp spent
          cases failed
          exact ⟨_, rfl, .labels exhausted⟩
        · rename_i skip code handed
          have sameInstrs : code.instrs = body.code.instrs :=
            (Code.newLabel_eq_ok_iff.mp handed).2.1
          split at failed
          · rename_i refused
            cases failed
            have within : index ≤ code.length := by
              rw [Code.length, sameInstrs]
              exact Nat.le_of_lt (Body.lt_length_of_stackDepths analysed known)
            obtain ⟨rfl, causes⟩ := insertRun_error_cases within refused
            rcases causes with ⟨cause, unmade, rfl⟩ | ⟨run, made, high, rfl⟩
            · rcases ofList_error_cases unmade with ⟨scarce, rfl⟩ | ⟨full, instr, height, rfl⟩
              · exact ⟨_, rfl, .overdrawn handed scarce⟩
              · exact ⟨_, rfl, .overrun handed full unmade⟩
            · exact ⟨_, rfl, .stack handed analysed known made high⟩
          · cases failed

end Splice

/-- Whether a fault is found behind the allocation of a label. -/
def SynthesisFault.spendsLabel : SynthesisFault → Bool
  | .stackExhausted | .run (.popsBelowRun ..) => true
  | _ => false

/-- The body that a refused injection leaves is the one that there was, but for a label that is
spent. -/
structure Body.LeftBy (body : Body) (fault : SynthesisFault) (after : Body) : Prop where
  body_eq : after = { body with code := after.code }
  instrs_eq : after.code.instrs = body.code.instrs
  nextLabel_eq : after.code.nextLabel = body.code.nextLabel + fault.spendsLabel.toNat

theorem Body.LeftBy.eq_iff {body after : Body} {fault : SynthesisFault}
    (left : body.LeftBy fault after) : after = body ↔ fault.spendsLabel = false := by
  constructor
  · rintro rfl
    have same := left.nextLabel_eq
    cases spends : fault.spendsLabel with
    | false => rfl
    | true =>
        rw [spends] at same
        exact absurd same (Nat.ne_of_lt (Nat.lt_succ_self _))
  · intro keeps
    have nextEq := left.nextLabel_eq
    rw [keeps] at nextEq
    rw [left.body_eq, Code.eq_of_fields left.instrs_eq nextEq]

namespace Splice

variable {splice : Splice} {body after : Body} {index : Nat} {routine : MethodRef}
  {fault : SynthesisFault}

/-- Nothing but a label is lost when an injection is refused. -/
theorem Refusal.leftBy (refusal : Refusal splice body index routine fault after) :
    body.LeftBy fault after := by
  cases refusal with
  | analysis | unreachable | locals | labels => exact ⟨rfl, rfl, rfl⟩
  | overdrawn handed | overrun handed | stack handed =>
      obtain ⟨_, instrsEq, nextEq⟩ := Code.newLabel_eq_ok_iff.mp handed
      exact ⟨rfl, instrsEq, nextEq⟩

/-- A routine that leaves room behind its call is refused for the height of the stack or for what it
takes, if a label is spent on it. -/
theorem Refusal.eq_of_spendsLabel (refusal : Refusal splice body index routine fault after)
    (room : (Instr.call .static routine).effect.after splice.supply + 2 ≤ slotLimit)
    (spends : fault.spendsLabel = true) :
    fault = .stackExhausted ∨
      (splice.supply < (Instr.call .static routine).effect.pops ∧
        fault = .run (.popsBelowRun (.call .static routine) splice.supply)) := by
  cases refusal with
  | analysis | unreachable | locals | labels => cases spends
  | overdrawn _ scarce => exact .inr ⟨scarce, rfl⟩
  | overrun _ full => exact absurd full (Nat.not_lt.mpr room)
  | stack => exact .inl rfl

end Splice

end Weaver
