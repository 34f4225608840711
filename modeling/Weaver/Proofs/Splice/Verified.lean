import Weaver.Proofs.Body.Bounds
import Weaver.Proofs.Splice.Flow
import Weaver.Proofs.Splice.Transparent

/-!
# Injections keep verified bodies verified

A body whose depths can be told is still such a body after an injection: its instructions keep their
depths, the stack that it needs grows no further than to the peak of the run above the site, and what
it declares covers what it needs if it did before.
-/

namespace Weaver.Splice

open Body

variable {splice : Splice} {body woven : Body} {index depth : Nat} {routine : MethodRef}
  {slot? : Option Nat} {skip : Label} {run : Run}

/-- The locals of a run are those of the receiver, the parameters and the wrapper. -/
theorem localBound_le_of_mem_instrs {firstArgSlot bound : Nat}
    (source : splice.source.localBound ≤ bound)
    (arguments : ∀ instr ∈ Run.loadArgs splice.attachment.signature firstArgSlot,
      instr.localBound ≤ bound)
    (kept : ∀ slot, slot? = some slot → slot + 1 ≤ bound) :
    ∀ instr ∈ splice.instrs firstArgSlot routine slot? skip, instr.localBound ≤ bound := by
  have nothing : ∀ instr ∈ ([] : List Instr), instr.localBound ≤ bound := List.forall_mem_nil _
  have zero : 0 ≤ bound := Nat.zero_le _
  have construct : ∀ instr ∈ splice.construct, instr.localBound ≤ bound := by
    simp only [Splice.construct, List.forall_mem_cons]
    exact ⟨zero, zero, zero, source, zero, zero, nothing⟩
  have dispatch : ∀ instr ∈ splice.dispatch firstArgSlot routine, instr.localBound ≤ bound :=
    List.forall_mem_append.mpr ⟨arguments, List.forall_mem_cons.mpr ⟨zero, nothing⟩⟩
  cases slot? with
  | none => exact List.forall_mem_append.mpr ⟨construct, dispatch⟩
  | some slot =>
      have wrapper : addSlots slot 1 ≤ bound := (Nat.min_le_left _ _).trans (kept slot rfl)
      have keeps : ∀ instr ∈ keep slot, instr.localBound ≤ bound := by
        simp only [keep, List.forall_mem_cons]
        exact ⟨wrapper, wrapper, nothing⟩
      have leaves : ∀ instr ∈ leave splice.attachment.returnType slot,
          instr.localBound ≤ bound := by
        unfold leave
        split
        · exact List.forall_mem_cons.mpr ⟨zero, nothing⟩
        · simp only [List.forall_mem_append, List.forall_mem_cons, List.forall_mem_map]
          exact ⟨⟨⟨wrapper, zero, nothing⟩, fun _ _ => zero⟩, zero, nothing⟩
      simp only [instrs, check, List.forall_mem_append, List.forall_mem_cons]
      exact ⟨⟨⟨construct, keeps⟩, dispatch⟩, ⟨⟨wrapper, zero, zero, nothing⟩, leaves⟩, zero, nothing⟩

theorem source_le_argumentSlots (staticEq : splice.attachment.isStatic = body.isStatic) :
    splice.source.localBound ≤ body.argumentSlots := by
  unfold Splice.source
  cases static : body.isStatic with
  | true =>
      rw [staticEq, static]
      exact Nat.zero_le _
  | false =>
      rw [staticEq, static]
      exact one_le_argumentSlots static

/-- The locals that the woven body declares cover what it needs, if those of the body did. -/
theorem Applied.covers_locals
    (effect : Applied splice body index routine depth skip run woven)
    (signatureEq : splice.attachment.signature = body.signature)
    (staticEq : splice.attachment.isStatic = body.isStatic)
    (covered : body.requiredMaxLocals ≤ body.maxLocals) :
    woven.requiredMaxLocals ≤ woven.maxLocals := by
  have grown : body.maxLocals ≤ woven.maxLocals := effect.inserted.locals_le
  obtain ⟨arguments, uses⟩ := requiredMaxLocals_le_iff.mp covered
  have argumentsEq : woven.argumentSlots = body.argumentSlots := by
    rw [effect.woven_eq]
    rfl
  have below : body.argumentSlots ≤ woven.maxLocals := arguments.trans grown
  have ofRun : ∀ instr ∈ splice.instrs body.firstArgSlot routine (splice.wrapperLocal? body) skip,
      instr.localBound ≤ woven.maxLocals := by
    apply localBound_le_of_mem_instrs
    · exact (source_le_argumentSlots staticEq).trans below
    · rw [signatureEq]
      exact fun instr member => (localBound_le_of_mem_loadArgs member).trans below
    · intro slot kept
      rw [effect.maxLocals_eq, kept]
      exact Nat.le_refl _
  rw [requiredMaxLocals_le_iff, argumentsEq]
  refine ⟨below, ?_⟩
  intro instr member
  rcases effect.inserted.mem_iff.mp member with inBody | inRun
  · exact (uses instr inBody).trans grown
  · exact ofRun instr inRun

/-- A body validates with the run if and only if it does without. -/
theorem Inserted.validate_iff {instrs : List Instr} (inserted : Inserted body index instrs woven)
    (passable : Passable instrs) : woven.validate = .ok () ↔ body.validate = .ok () := by
  rw [validate_eq_ok_iff, validate_eq_ok_iff]
  simp only [inserted.uniqueLabels, inserted.unique, true_and, inserted.mem_iff]
  constructor
  · intro targets instr member label target
    rcases targets instr (.inl member) label target with inBody | inRun
    · exact inBody
    · exact absurd target (inserted.fresh label inRun instr member).2
  · rintro targets instr (member | member) label target
    · exact .inl (targets instr member label target)
    · exact .inr (passable.targets instr member label target)

/-- A body whose instructions stand at other places of the woven body, which is as well verified. -/
structure Keeps (place : Nat → Nat) (body woven : Body) : Prop where
  ordered : StrictMono place
  fetch : ∀ position, woven.code.instrs[place position]? = body.code.instrs[position]?
  /-- Every instruction keeps its entry in the table of depths. -/
  depths : ∀ depths, body.stackDepths = .ok depths →
    ∃ grown, woven.stackDepths = .ok grown ∧
      ∀ position < body.code.instrs.length, grown[place position]? = depths[position]?
  validate_iff : woven.validate = .ok () ↔ body.validate = .ok ()
  stack : ∀ required, body.requiredMaxStack = .ok required → required ≤ body.maxStack →
    ∃ raised, woven.requiredMaxStack = .ok raised ∧ raised ≤ woven.maxStack
  locals : body.requiredMaxLocals ≤ body.maxLocals → woven.requiredMaxLocals ≤ woven.maxLocals

namespace Keeps

theorem refl (body : Body) : Keeps id body body where
  ordered := strictMono_id
  fetch := fun _ => rfl
  depths := fun depths analysed => ⟨depths, analysed, fun _ _ => rfl⟩
  validate_iff := Iff.rfl
  stack := fun required found covered => ⟨required, found, covered⟩
  locals := id

theorem trans {first second : Nat → Nat} {later : Body} (before : Keeps first body woven)
    (behind : Keeps second woven later) : Keeps (second ∘ first) body later where
  ordered := behind.ordered.comp before.ordered
  fetch := fun position => (behind.fetch (first position)).trans (before.fetch position)
  depths := by
    intro depths analysed
    obtain ⟨grown, analysedOnce, kept⟩ := before.depths depths analysed
    obtain ⟨last, analysedTwice, keptOn⟩ := behind.depths grown analysedOnce
    refine ⟨last, analysedTwice, ?_⟩
    intro position inside
    have here := before.fetch position
    rw [List.getElem?_eq_getElem inside] at here
    exact (keptOn _ (List.getElem?_eq_some_iff.mp here).1).trans (kept position inside)
  validate_iff := behind.validate_iff.trans before.validate_iff
  stack := by
    intro required found covered
    obtain ⟨raised, foundOnce, coveredOnce⟩ := before.stack required found covered
    exact behind.stack raised foundOnce coveredOnce
  locals := fun covered => behind.locals (before.locals covered)

end Keeps

/-- What an injection does to a body whose depths can be told. -/
structure Verified (body : Body) (index depth : Nat) (run : Run) (woven : Body) : Prop where
  /-- The depth of the site in the table of the body. -/
  site : ∃ depths, body.stackDepths = .ok depths ∧ depths[index]? = some (some depth)
  made : Run.ofList run.instrs = .ok run
  inserted : Inserted body index run.instrs woven
  keeps : Keeps (relocated index run.instrs.length) body woven
  /-- The woven body needs no more than the body did, or the run does above the site. -/
  stack : ∀ required, body.requiredMaxStack = .ok required →
    ∃ raised, woven.requiredMaxStack = .ok raised ∧ raised ≤ max required (depth + run.peak)
  /-- What was declared exactly is still exact, where control falls through to the site. -/
  exact : ∀ below, FallsTo body.code.instrs index below →
    body.requiredMaxStack = .ok body.maxStack → woven.requiredMaxStack = .ok woven.maxStack

theorem Inserted.ne_nil {instrs : List Instr} (inserted : Inserted body index instrs woven)
    (nonempty : body.code.instrs ≠ []) : woven.code.instrs ≠ [] := by
  rw [inserted.instrs_eq]
  intro empty
  have both := List.append_eq_nil_iff.mp empty
  have split := List.take_append_drop index body.code.instrs
  rw [(List.append_eq_nil_iff.mp both.1).1, both.2] at split
  exact nonempty split.symm

/-- The stack that the woven body needs is that of the body or, if control falls through to the site,
the peak of the run above it. -/
theorem Inserted.exists_requiredMaxStack {instrs : List Instr} {peak required : Nat}
    (inserted : Inserted body index instrs woven) (passable : Passable instrs)
    (peakGreatest : IsGreatest (heights instrs) peak) (narrow : depth + peak ≤ slotLimit)
    {depths : List (Option Nat)} (analysed : body.stackDepths = .ok depths)
    (known : depths[index]? = some (some depth))
    (found : body.requiredMaxStack = .ok required) :
    ∃ raised, woven.requiredMaxStack = .ok raised ∧ raised ≤ max required (depth + peak) ∧
      ∀ below, FallsTo body.code.instrs index below → raised = max required (depth + peak) := by
  obtain ⟨nonempty, balanced, reached⟩ := balanced_of_known analysed known
  have room := HasRoom.of_peak balanced reached peakGreatest narrow
  have grownNonempty := inserted.ne_nil nonempty
  obtain ⟨grown, analysedWoven⟩ :=
    (stackDepths_isOk_iff grownNonempty).mpr (inserted.balanced passable room balanced)
  obtain ⟨highest, foundHighest, greatest⟩ := isGreatest_requiredMaxStack nonempty analysed
  obtain ⟨raised, foundRaised, raisedGreatest⟩ :=
    isGreatest_requiredMaxStack grownNonempty analysedWoven
  obtain rfl : highest = required := Except.ok.inj (foundHighest.symm.trans found)
  have bounded : raised ≤ max highest (depth + peak) := by
    rcases (inserted.mem_heights_iff passable room).mp raisedGreatest.1 with
      ofBody | ⟨below, inner, falls, inRun, rfl⟩
    · exact (greatest.2 ofBody).trans (Nat.le_max_left _ _)
    · rw [balanced.agree falls.reaches reached]
      exact (Nat.add_le_add_left (peakGreatest.2 inRun) depth).trans (Nat.le_max_right _ _)
  refine ⟨raised, foundRaised, bounded, ?_⟩
  intro below falls
  cases balanced.agree falls.reaches reached
  apply Nat.le_antisymm bounded
  apply Nat.max_le.mpr
  constructor
  · exact raisedGreatest.2 ((inserted.mem_heights_iff passable room).mpr (.inl greatest.1))
  · exact raisedGreatest.2 ((inserted.mem_heights_iff passable room).mpr
      (.inr ⟨depth, peak, falls, peakGreatest.1, rfl⟩))

/-- A body is kept as well verified by an injection into the method that its event is attached to. -/
theorem Applied.verified (effect : Applied splice body index routine depth skip run woven)
    (signatureEq : splice.attachment.signature = body.signature)
    (staticEq : splice.attachment.isStatic = body.isStatic)
    (slotsEq : routine.signature.totalSlots = splice.attachment.signature.totalSlots + 1)
    (void : routine.signature.ret = .void) : Verified body index depth run woven := by
  obtain ⟨depths, analysed, known⟩ := effect.analysed
  obtain ⟨nonempty, balanced, reached⟩ := balanced_of_known analysed known
  have instrsEq := Run.instrs_of_ofList effect.made
  have made := effect.made
  have inserted := effect.inserted
  obtain ⟨passable, peakGreatest⟩ := passable_instrs slotsEq void effect.made
  rw [← instrsEq] at made inserted passable peakGreatest
  have room := HasRoom.of_peak balanced reached peakGreatest effect.narrow
  have grownNonempty := inserted.ne_nil nonempty
  have raises := fun required (found : body.requiredMaxStack = .ok required) =>
    inserted.exists_requiredMaxStack passable peakGreatest effect.narrow analysed known found
  exact
    { site := ⟨depths, analysed, known⟩
      made
      inserted
      keeps :=
        { ordered := strictMono_relocated index _
          fetch := inserted.fetch_relocated
          depths := by
            intro same analysedSame
            obtain ⟨grown, analysedWoven⟩ :=
              (stackDepths_isOk_iff grownNonempty).mpr (inserted.balanced passable room balanced)
            refine ⟨grown, analysedWoven, ?_⟩
            intro position inside
            exact inserted.getElem?_records passable room
              (records_of_stackDepths nonempty analysedSame)
              (records_of_stackDepths grownNonempty analysedWoven) inside
          validate_iff := inserted.validate_iff passable
          stack := by
            intro required found covered
            obtain ⟨raised, foundRaised, bounded, _⟩ := raises required found
            refine ⟨raised, foundRaised, ?_⟩
            rw [effect.maxStack_eq]
            exact bounded.trans (max_le_max_right _ covered)
          locals := effect.covers_locals signatureEq staticEq }
      stack := by
        intro required found
        obtain ⟨raised, foundRaised, bounded, _⟩ := raises required found
        exact ⟨raised, foundRaised, bounded⟩
      exact := by
        intro below falls exact
        obtain ⟨raised, foundRaised, _, equal⟩ := raises _ exact
        rw [foundRaised, equal below falls, effect.maxStack_eq] }

end Weaver.Splice

namespace Weaver.Loom

open Splice Body

/-- Some loom injects an event that is attached to the body into it, and leaves the woven body. -/
def Injects (index : Nat) (body woven : Body) : Prop :=
  ∃ (loom after : Loom) (id : EventId) (cancellable : Bool) (routine : RoutineId)
    (injections : Nat),
    loom.body = body ∧
    (loom.events.get id).attachment = some { Attachment.ofBody body with injections } ∧
    loom.inject id index cancellable = (.ok routine, after) ∧
    after.body = woven

/-- Every injection of an event that is attached to the body keeps it verified. -/
theorem Injects.verified {index : Nat} {body woven : Body} (injects : Injects index body woven) :
    ∃ depth run, Verified body index depth run woven := by
  obtain ⟨loom, after, id, cancellable, routine, injections, rfl, attached, injected, rfl⟩ := injects
  obtain ⟨⟨report, applied⟩, signatureEq⟩ := apply_of_inject attached injected
  obtain ⟨depth, skip, run, effect, _⟩ := applied_of_apply applied
  have refEq : (after.proxies.get routine).ref.signature =
      Routine.signatureFor (Attachment.ofBody loom.body).wrapper loom.body := signatureEq
  refine ⟨depth, run, effect.verified rfl rfl ?_ ?_⟩
  · rw [refEq]
    exact Nat.add_comm _ _
  · rw [refEq]
    rfl

/-- Injections keep a verified body verified.  An injection of an event that is attached to the body
leaves every instruction its entry in the table of depths, and needs no more stack than the body did
or the run does above the site; and whatever number of injections there is, in whatever order, the
body validates if it did before, and what it declares covers what it needs if it did before.  Where
control falls through to the sites, a declared stack that was exact is still exact. -/
theorem inject_keeps_verified (body : Body) :
    (∀ index woven, Injects index body woven →
      ∃ depth run, Verified body index depth run woven) ∧
    (∀ woven, Relation.ReflTransGen (fun before after => ∃ index, Injects index before after)
        body woven →
      ∃ place, Keeps place body woven) ∧
    ∀ woven, Relation.ReflTransGen (fun before after =>
        ∃ index below, Injects index before after ∧ FallsTo before.code.instrs index below)
        body woven →
      body.requiredMaxStack = .ok body.maxStack → woven.requiredMaxStack = .ok woven.maxStack := by
  refine ⟨fun index woven injects => injects.verified, ?_, ?_⟩
  · intro woven injections
    induction injections with
    | refl => exact ⟨id, .refl body⟩
    | tail _ injects ih =>
        obtain ⟨place, keeps⟩ := ih
        obtain ⟨index, injects⟩ := injects
        obtain ⟨depth, run, verified⟩ := injects.verified
        exact ⟨_, keeps.trans verified.keeps⟩
  · intro woven injections exact
    induction injections with
    | refl => exact exact
    | @tail middle last _ injects ih =>
        obtain ⟨index, below, injects, falls⟩ := injects
        obtain ⟨depth, run, verified⟩ := injects.verified
        exact verified.exact below falls ih

/-- The declared stack of the countdown stays exact. -/
theorem inject_keeps_verified_countdown :
    ∃ woven, Injects 4 .countdown woven ∧
      FallsTo countdown.code.instrs 4 2 ∧
      countdown.requiredMaxStack = .ok countdown.maxStack ∧
      woven.requiredMaxStack = .ok woven.maxStack ∧ countdown.maxStack < woven.maxStack := by
  have injected : ((ofBody .countdown).inject ⟨0⟩ 4 true).1 = .ok ⟨1⟩ := by decide +kernel
  have injects : Injects 4 .countdown ((ofBody .countdown).inject ⟨0⟩ 4 true).2.body :=
    ⟨ofBody .countdown, _, ⟨0⟩, true, ⟨1⟩, 0, rfl, rfl, Prod.ext injected rfl, rfl⟩
  have records := records_of_stackDepths (by decide) stackDepths_countdown
  have falls : FallsTo countdown.code.instrs 4 2 :=
    .next ((records.known_iff 3 3).mp rfl) rfl (by decide) rfl
  have exact : countdown.requiredMaxStack = .ok countdown.maxStack := by
    rw [requiredMaxStack_eq stackDepths_countdown]
    rfl
  have keeps := (inject_keeps_verified .countdown).2.2 _ (.single ⟨4, 2, injects, falls⟩) exact
  exact ⟨_, injects, falls, exact, keeps, by decide +kernel⟩

end Weaver.Loom
