import Weaver.Proofs.Body.Bounds
import Weaver.Proofs.Body.Depths
import Weaver.Proofs.Dispatch.Listeners
import Weaver.Proofs.Splice.Tracked

/-!
# Bodies of routines are verified

The code for a listener leaves nothing on the stack, neither behind it nor where it branches to the
end of the routine.  So the depth that is tracked while the code is emitted is that of the control
flow, whatever the listeners are and however many there are, and what a routine declares is exactly
what the analysis of its body finds.
-/

namespace Weaver

namespace Run.Builder

variable {builder last : Builder} {front back instrs : List Instr} {position : Nat}

/-- Code that control goes through, and that leaves nothing on the stack, neither behind it nor where
it branches. -/
structure Level (instrs : List Instr) : Prop where
  unlabelled : ∀ instr ∈ instrs, instr.definition? = none
  falls : ∀ instr ∈ instrs, instr.fallsThrough = true
  settled : depthBehind 0 instrs = 0
  branches : ∀ before instr after label, instrs = before ++ instr :: after →
    instr.target? = some label → depthBehind 0 (before ++ [instr]) = 0

theorem level_nil : Level [] := ⟨nofun, nofun, rfl, fun before => by cases before <;> nofun⟩

theorem Straight.level (straight : Straight instrs) (settled : depthBehind 0 instrs = 0) :
    Level instrs where
  unlabelled instr member := (straight instr member).1
  falls instr member := (straight instr member).2.2
  settled
  branches before instr after label codeEq target := by
    have member : instr ∈ instrs := codeEq ▸ List.mem_append_right before List.mem_cons_self
    cases (straight instr member).2.1.symm.trans target

theorem Level.append (first : Level front) (second : Level back) : Level (front ++ back) where
  unlabelled instr member :=
    (List.mem_append.mp member).elim (first.unlabelled instr) (second.unlabelled instr)
  falls instr member := (List.mem_append.mp member).elim (first.falls instr) (second.falls instr)
  settled := by
    rw [depthBehind_append, first.settled, second.settled]
  branches before instr after label codeEq target := by
    rcases List.append_eq_append_iff.mp codeEq with ⟨more, beforeEq, backEq⟩ | ⟨more, frontEq, rest⟩
    · rw [beforeEq, List.append_assoc, depthBehind_append, first.settled]
      exact second.branches more instr after label backEq target
    · cases more with
      | nil =>
          rw [List.append_nil] at frontEq
          rw [List.nil_append] at rest
          subst frontEq
          rw [depthBehind_append, first.settled]
          exact second.branches [] instr after label rest.symm target
      | cons head more =>
          cases rest
          exact first.branches before _ more label frontEq target

theorem Level.flatMap {α : Type} {items : List α} {code : α → List Instr}
    (each : ∀ item ∈ items, Level (code item)) : Level (items.flatMap code) := by
  induction items with
  | nil => exact level_nil
  | cons item rest ih =>
      exact (each item List.mem_cons_self).append
        (ih fun other member => each other (List.mem_cons_of_mem _ member))

/-- Without labels, each instruction is emitted at the depth behind the ones before it. -/
theorem depth_of_unlabelled (unlabelled : ∀ instr ∈ instrs, instr.definition? = none)
    (emitted : builder.emitAll instrs = (.ok (), last)) :
    last.depth = depthBehind builder.depth instrs := by
  induction instrs generalizing builder with
  | nil =>
      cases emitted
      rfl
  | cons instr rest ih =>
      obtain ⟨next, once, later⟩ := emitAll_cons_iff.mp emitted
      have extended : builder.extend instr = .ok next := by
        simpa [emit, arrive, unlabelled instr List.mem_cons_self] using once
      obtain ⟨_, rfl⟩ := extend_eq_ok_iff.mp extended
      exact ih (fun other member => unlabelled other (List.mem_cons_of_mem _ member)) later

/-- In front of an instruction of level code the builder tracks the depth behind those before it. -/
theorem Level.depth_stage (level : Level front)
    (emitted : empty.emitAll (front ++ back) = (.ok (), last)) (inside : position ≤ front.length) :
    (stage (front ++ back) position).depth = depthBehind 0 (front.take position) := by
  have split : front ++ back = front.take position ++ (front.drop position ++ back) := by
    rw [← List.append_assoc, List.take_append_drop]
  rw [split] at emitted ⊢
  have first := emitAll_stage emitted
  rw [List.length_take, Nat.min_eq_left inside] at first
  exact depth_of_unlabelled
    (fun instr member => level.unlabelled instr (List.mem_of_mem_take member)) first

/-- Behind a branch of level code there is nothing on the stack. -/
theorem Level.after_branch (level : Level front)
    (emitted : empty.emitAll (front ++ back) = (.ok (), last)) {instr : Instr} {label : Label}
    (here : front[position]? = some instr) (target : instr.target? = some label) :
    instr.effect.after (stage (front ++ back) position).depth = 0 := by
  obtain ⟨inside, rfl⟩ := List.getElem?_eq_some_iff.mp here
  have split : front = front.take position ++ front[position] :: front.drop (position + 1) := by
    rw [List.getElem_cons_drop, List.take_append_drop]
  have settled := level.branches _ _ _ label split target
  rw [depthBehind_append] at settled
  rw [level.depth_stage emitted (Nat.le_of_lt inside)]
  exact settled

/-- Where all instructions but the last fall through, control comes to each of them. -/
theorem Coherent.exists_reaches (coherent : Coherent instrs)
    (emitted : empty.emitAll instrs = (.ok (), last))
    (falls : ∀ origin instr, origin + 1 < instrs.length → instrs[origin]? = some instr →
      instr.fallsThrough = true)
    (inside : position < instrs.length) : ∃ depth, Body.Reaches instrs position depth := by
  have comes : (stage instrs position).reachable = true := by
    apply reachable_stage emitted (Nat.le_of_lt inside)
    intro origin instr before here
    exact falls origin instr (Nat.lt_of_le_of_lt before inside) here
  exact ⟨_, (coherent.reaches_iff emitted (Nat.le_of_lt inside)).mpr
    ⟨(coherent.arrival_of_fall comes).1, rfl⟩⟩

end Run.Builder

namespace Body

/-- A body is accepted, control comes to all of its instructions, and its declared stack and locals
are what it requires, no more and no less. -/
structure Exact (body : Body) : Prop where
  valid : body.validate = .ok ()
  known : ∃ depths, body.stackDepths = .ok depths ∧
    depths.length = body.code.instrs.length ∧ none ∉ depths
  stack : body.requiredMaxStack = .ok body.maxStack
  locals : body.requiredMaxLocals = body.maxLocals

/-- Balanced code that control goes through is accepted with the highest depth in it. -/
theorem exact_of_balanced {body : Body} (filled : body.code.instrs ≠ [])
    (balanced : Balanced body.code.instrs)
    (reached : ∀ position < body.code.instrs.length, ∃ depth,
      Reaches body.code.instrs position depth)
    (greatest : IsGreatest (heights body.code.instrs) body.maxStack)
    (locals : body.requiredMaxLocals = body.maxLocals) : body.Exact := by
  obtain ⟨depths, analysed⟩ := (stackDepths_isOk_iff filled).mpr balanced
  have records := records_of_stackDepths filled analysed
  constructor
  case valid =>
    refine validate_eq_ok_iff.mpr ⟨balanced.labels, fun instr member label target => ?_⟩
    obtain ⟨position, here⟩ := List.mem_iff_getElem?.mp member
    obtain ⟨depth, comes⟩ := reached position (List.getElem?_eq_some_iff.mp here).1
    exact balanced.target comes here target
  case known =>
    refine ⟨depths, analysed, records.length_eq, fun unknown => ?_⟩
    obtain ⟨position, here⟩ := List.mem_iff_getElem?.mp unknown
    have inside : position < body.code.instrs.length := by
      rw [← records.length_eq]
      exact (List.getElem?_eq_some_iff.mp here).1
    obtain ⟨depth, comes⟩ := reached position inside
    exact (records.unknown_iff position inside).mp here depth comes
  case stack => exact balanced.requiredMaxStack_eq_ok filled greatest
  case locals => exact locals

end Body

namespace Routine

open Run.Builder

variable {routine : Routine} {entries : List (Event × Listener)} {last : Run.Builder}

theorem straight_call (signature : Signature) (call : GuardedCall) :
    Straight (Run.loadArgs signature 0 ++ [.guardedCall call]) := by
  intro instr member
  rcases List.mem_append.mp member with inLoads | atCall
  · obtain ⟨load, _, rfl⟩ := List.mem_map.mp inLoads
    exact ⟨rfl, rfl, rfl⟩
  · cases List.mem_singleton.mp atCall
    exact ⟨rfl, rfl, rfl⟩

theorem level_call {signature : Signature} (narrow : signature.totalSlots ≤ slotLimit)
    (void : signature.ret = .void) (event : Event) (listener : Listener) :
    Level (Run.loadArgs signature 0 ++ [.guardedCall (guardedCall event listener signature)]) := by
  apply (straight_call signature _).level
  rw [depthBehind_append, Run.loadArgs, depthBehind_loads (Nat.zero_le _),
    Signature.sum_parameterSlots, Nat.zero_add, wrapSlots_of_le narrow]
  have pops : signature.argsSize = signature.totalSlots := Nat.min_eq_left narrow
  have pushes : signature.ret.slots = 0 := by rw [void]; rfl
  change wrapSlots (signature.totalSlots - signature.argsSize + signature.ret.slots) = 0
  rw [pops, pushes, Nat.sub_self]
  rfl

theorem level_stopIfCancelled (routine : Routine) : Level routine.stopIfCancelled := by
  unfold stopIfCancelled
  cases routine.cancellable with
  | false => exact level_nil
  | true =>
      constructor
      case unlabelled => simp [Instr.definition?]
      case falls => simp [Instr.fallsThrough, Instr.flow]
      case settled => rfl
      case branches =>
        intro before instr after label codeEq target
        rcases before with _ | ⟨first, _ | ⟨second, _ | ⟨third, before⟩⟩⟩
        · cases codeEq
          cases target
        · cases codeEq
          cases target
        · cases codeEq
          rfl
        · simp at codeEq

theorem level_callOf (narrow : routine.signature.totalSlots ≤ slotLimit)
    (entry : Event × Listener) : Level (routine.callOf entry) := by
  unfold callOf
  rw [Listener.resolve?_eq]
  by_cases accepts : entry.2.Accepts routine.signature
  · rw [if_pos accepts]
    refine (level_call ?_ rfl entry.1 entry.2).append routine.level_stopIfCancelled
    rw [Signature.totalSlots_eq_sum]
    exact accepts.totalSlots_le.trans narrow
  · rw [if_neg accepts]
    exact level_nil

theorem level_calls (narrow : routine.signature.totalSlots ≤ slotLimit)
    (entries : List (Event × Listener)) : Level (entries.flatMap routine.callOf) :=
  Level.flatMap fun entry _ => level_callOf narrow entry

/-- The only branches of a routine go to the label at its end, which is there. -/
theorem target_of_mem_calls {instr : Instr} {label : Label}
    (member : instr ∈ entries.flatMap routine.callOf) (target : instr.target? = some label) :
    routine.branches entries = true ∧ label = done := by
  obtain ⟨entry, listed, inCall⟩ := List.mem_flatMap.mp member
  unfold callOf at inCall
  cases resolved : entry.2.resolve? routine.signature with
  | none =>
      rw [resolved] at inCall
      cases inCall
  | some signature =>
      rw [resolved] at inCall
      rcases List.mem_append.mp inCall with called | checked
      · cases ((straight_call signature _) instr called).2.1.symm.trans target
      · unfold stopIfCancelled at checked
        split at checked
        · rename_i cancellable
          refine ⟨?_, ?_⟩
          · rw [branches, cancellable, Bool.true_and, List.any_eq_true]
            exact ⟨entry, listed, by rw [resolved]; rfl⟩
          · simp only [List.mem_cons, List.not_mem_nil, or_false] at checked
            rcases checked with rfl | rfl | rfl
            · cases target
            · cases target
            · cases target
              rfl
        · cases checked

theorem mem_ending {branches : Bool} {instr : Instr} (member : instr ∈ ending branches) :
    instr = .label done ∨ instr = .ret none := by
  rcases List.mem_append.mp member with atLabel | atReturn
  · split at atLabel
    · exact .inl (List.mem_singleton.mp atLabel)
    · cases atLabel
  · exact .inr (List.mem_singleton.mp atReturn)

/-- A branch stands in the code for a listener. -/
theorem branch_of_instrs {position : Nat} {instr : Instr} {label : Label}
    (here : (routine.instrs entries)[position]? = some instr)
    (target : instr.target? = some label) :
    (entries.flatMap routine.callOf)[position]? = some instr := by
  rw [instrs_eq_ending, List.getElem?_append] at here
  split at here
  · exact here
  · rcases mem_ending (List.mem_of_getElem? here) with rfl | rfl <;> cases target

theorem falls_of_instrs (narrow : routine.signature.totalSlots ≤ slotLimit) {position : Nat}
    {instr : Instr} (before : position + 1 < (routine.instrs entries).length)
    (here : (routine.instrs entries)[position]? = some instr) : instr.fallsThrough = true := by
  rw [instrs_eq_ending, List.length_append] at before
  rw [instrs_eq_ending, List.getElem?_append] at here
  split at here
  · exact (level_calls narrow entries).falls instr (List.mem_of_getElem? here)
  · unfold ending at before here
    cases branchesEq : routine.branches entries with
    | false =>
        rw [branchesEq] at before
        simp only [Bool.false_eq_true, if_false, List.nil_append, List.length_singleton] at before
        omega
    | true =>
        rw [branchesEq] at before here
        simp only [if_true, List.length_append, List.length_singleton] at before
        have atLabel : position - (entries.flatMap routine.callOf).length = 0 := by omega
        rw [atLabel] at here
        cases here
        rfl

/-- Every branch of a routine is taken with nothing on the stack. -/
theorem after_branch_of_instrs (narrow : routine.signature.totalSlots ≤ slotLimit)
    (emitted : empty.emitAll (routine.instrs entries) = (.ok (), last)) {position : Nat}
    {instr : Instr} {label : Label} (here : (routine.instrs entries)[position]? = some instr)
    (target : instr.target? = some label) :
    instr.effect.after (stage (routine.instrs entries) position).depth = 0 := by
  have inCalls := branch_of_instrs here target
  rw [instrs_eq_ending] at emitted ⊢
  exact (level_calls narrow entries).after_branch emitted inCalls target

/-- So the depth that is noted for a label is always the same. -/
theorem noted_of_instrs (narrow : routine.signature.totalSlots ≤ slotLimit)
    (emitted : empty.emitAll (routine.instrs entries) = (.ok (), last)) {position depth : Nat}
    {label : Label} (inside : position ≤ (routine.instrs entries).length)
    (noted : (stage (routine.instrs entries) position).labelDepths.lookup label = some depth) :
    depth = 0 := by
  obtain ⟨origin, _, instr, here, target, depthEq⟩ := exists_branch_of_noted emitted inside noted
  have unlabelled := (level_calls narrow entries).unlabelled instr
    (List.mem_of_getElem? (branch_of_instrs here target))
  rw [arrival_of_unlabelled here unlabelled,
    after_branch_of_instrs narrow emitted here target] at depthEq
  exact depthEq.symm

/-- The depths of a routine can be told as it is emitted. -/
theorem coherent_instrs (narrow : routine.signature.totalSlots ≤ slotLimit)
    (emitted : empty.emitAll (routine.instrs entries) = (.ok (), last)) :
    Coherent (routine.instrs entries) := by
  constructor
  case live =>
    intro position instr here
    have inside := (List.getElem?_eq_some_iff.mp here).1
    refine .inr (reachable_stage emitted (Nat.le_of_lt inside) ?_)
    intro origin other before there
    exact falls_of_instrs narrow (Nat.lt_of_le_of_lt before inside) there
  case forward =>
    intro position instr label target here branches defined
    rw [definedAt_instrs defined]
    exact (List.getElem?_eq_some_iff.mp (branch_of_instrs here branches)).1
  case meets =>
    intro position instr label depth here target noted
    rw [after_branch_of_instrs narrow emitted here target,
      noted_of_instrs narrow emitted (Nat.le_of_lt (List.getElem?_eq_some_iff.mp here).1) noted]
  case joins =>
    intro position label depth defined noted _
    have level := level_calls narrow entries
    rw [noted_of_instrs narrow emitted (Nat.le_of_lt defined.lt) noted, definedAt_instrs defined]
    rw [instrs_eq_ending] at emitted ⊢
    rw [level.depth_stage emitted (Nat.le_refl _), List.take_length, level.settled]

/-- A routine is balanced. -/
theorem balanced_instrs (narrow : routine.signature.totalSlots ≤ slotLimit)
    (emitted : empty.emitAll (routine.instrs entries) = (.ok (), last)) :
    Body.Balanced (routine.instrs entries) := by
  refine (coherent_instrs narrow emitted).balanced emitted ?_ ?_ ?_
  · intro label first second firstAt secondAt
    rw [definedAt_instrs firstAt, definedAt_instrs secondAt]
  · intro instr member label target
    obtain ⟨position, here⟩ := List.mem_iff_getElem?.mp member
    obtain ⟨branches, rfl⟩ :=
      target_of_mem_calls (List.mem_of_getElem? (branch_of_instrs here target)) target
    simp [instrs_eq_ending, ending, branches]
  · have atEnd := List.getElem?_concat_length (l := entries.flatMap routine.callOf ++
      if routine.branches entries then [.label done] else []) (a := Instr.ret none)
    obtain ⟨_, _, _, reachableEq, _⟩ := stage_succ emitted atEnd
    rw [← stage_length emitted, instrs, List.length_append, List.length_singleton, ← instrs,
      reachableEq]
    exact Bool.and_false _

theorem localBound_le_of_mem_loadArgs {signature : Signature} {instr : Instr}
    (member : instr ∈ Run.loadArgs signature 0) : instr.localBound ≤ signature.totalSlots := by
  obtain ⟨⟨slot, kind⟩, held, rfl⟩ := List.mem_map.mp member
  refine (Signature.addSlots_le_of_mem_layout held).trans (Nat.le_trans (Nat.min_le_left _ _) ?_)
  exact Nat.le_of_eq (Nat.zero_add _)

/-- What a routine loads lies in the slots of its wrapper and its arguments. -/
theorem localBound_le_of_mem_instrs (wrapped : 1 ≤ routine.signature.totalSlots) {instr : Instr}
    (member : instr ∈ routine.instrs entries) :
    instr.localBound ≤ routine.signature.totalSlots := by
  rw [instrs_eq_ending] at member
  rcases List.mem_append.mp member with inCalls | atEnd
  · obtain ⟨entry, _, inCall⟩ := List.mem_flatMap.mp inCalls
    by_cases accepts : entry.2.Accepts routine.signature
    · rw [Machine.Interpreter.callOf_eq accepts] at inCall
      rcases List.mem_append.mp inCall with inLoads | behind
      · refine (localBound_le_of_mem_loadArgs inLoads).trans ?_
        rw [Signature.totalSlots_eq_sum]
        exact accepts.totalSlots_le
      · rcases List.mem_cons.mp behind with rfl | checked
        · exact Nat.zero_le _
        · unfold stopIfCancelled at checked
          split at checked
          · simp only [List.mem_cons, List.not_mem_nil, or_false] at checked
            rcases checked with rfl | rfl | rfl
            · exact Nat.le_trans (by decide) wrapped
            · exact Nat.zero_le _
            · exact Nat.zero_le _
          · cases checked
    · rw [callOf, Listener.resolve?_eq, if_neg accepts] at inCall
      cases inCall
  · rcases mem_ending atEnd with rfl | rfl <;> exact Nat.zero_le _

/-- A generated body declares the peak of its code. -/
theorem exists_emitAll_of_generate {store : EventStore} {body : Body}
    (generated : (routine.generate store).1 = .ok body) :
    ∃ last, empty.emitAll (routine.instrs (routine.listeners store)) = (.ok (), last) ∧
      body.maxStack = last.peak := by
  unfold generate at generated
  dsimp only at generated
  split at generated
  · cases generated
  · rename_i run made
    cases generated
    obtain ⟨last, emitted, peakEq⟩ := exists_emitAll_of_ofList made
    exact ⟨last, emitted, peakEq⟩

/-- Every routine of a method can be generated, whatever its events are and whatever listeners they
have, and the body is exact.  Its slots must be countable; nothing else is asked of the signature. -/
theorem generate_exact (routine : Routine) (wrapper : Wrapper) (body : Body) (store : EventStore)
    (declared : routine.signature = signatureFor wrapper body)
    (narrow : routine.signature.totalSlots ≤ slotLimit) :
    ∃ generated, (routine.generate store).1 = .ok generated ∧ generated.Exact := by
  obtain ⟨generated, succeeds, holds⟩ := generate_eq_ok narrow store
  obtain ⟨last, emitted, peakEq⟩ := exists_emitAll_of_generate succeeds
  have wrapped : 1 ≤ routine.signature.totalSlots := by
    rw [declared]
    exact Nat.le_add_right _ _
  have filled : routine.instrs (routine.listeners store) ≠ [] := by
    rw [instrs]
    exact List.append_ne_nil_of_right_ne_nil _ (List.cons_ne_nil _ _)
  have argumentsEq : generated.argumentSlots = generated.maxLocals := by
    rw [Body.argumentSlots_eq, holds.maxLocals_eq, holds.signature_eq, Body.firstArgSlot,
      holds.isStatic_eq]
    exact (addSlots_of_le (by simpa using narrow)).trans (Nat.zero_add _)
  have coherent := coherent_instrs narrow emitted
  have reached : ∀ position < (routine.instrs (routine.listeners store)).length, ∃ depth,
      Body.Reaches (routine.instrs (routine.listeners store)) position depth :=
    fun position inside => coherent.exists_reaches emitted
      (fun origin instr before here => falls_of_instrs narrow before here) inside
  have balanced := balanced_instrs narrow emitted
  have greatest := coherent.isGreatest_peak emitted filled
  rw [← holds.instrs_eq] at filled balanced reached greatest
  rw [← peakEq] at greatest
  refine ⟨generated, succeeds, Body.exact_of_balanced filled balanced reached greatest ?_⟩
  apply Nat.le_antisymm
  · refine Body.requiredMaxLocals_le_iff.mpr ⟨Nat.le_of_eq argumentsEq, ?_⟩
    rw [holds.instrs_eq, holds.maxLocals_eq]
    exact fun instr member => localBound_le_of_mem_instrs wrapped member
  · rw [← argumentsEq]
    exact (Body.requiredMaxLocals_le_iff.mp (Nat.le_refl _)).1

/-- A cancellable routine of a method with a wide parameter. -/
def checking : Routine :=
  { bare true with
    signature := signatureFor .plain (.ofNames "a/B" "m" ⟨[.long, .int], .void⟩ ⟨9⟩)
    events := [((0, 0), ⟨0⟩)] }

/-- Listeners that take all of it, a part of it, and something else. -/
def differing : EventStore :=
  storeOf
    [⟨"l/L", "all", none⟩, ⟨"l/L", "part", some ⟨[Wrapper.plain.type, .long], .void⟩⟩,
      ⟨"l/L", "other", some ⟨[.int], .void⟩⟩]

theorem generate_exact_checking :
    ∃ generated, (checking.generate differing).1 = .ok generated ∧ generated.Exact ∧
      generated.code.instrs.length = 15 ∧ generated.requiredMaxStack = .ok 4 ∧
      generated.requiredMaxLocals = 4 := by
  obtain ⟨generated, succeeds, exact⟩ :=
    generate_exact checking .plain _ differing rfl (by decide)
  have declared : ((checking.generate differing).1.toOption.map fun body =>
      (body.code.instrs.length, body.maxStack, body.maxLocals)) = some (15, 4, 4) := by
    decide +kernel
  rw [succeeds] at declared
  obtain ⟨lengthEq, stackEq, localsEq⟩ : generated.code.instrs.length = 15 ∧
      generated.maxStack = 4 ∧ generated.maxLocals = 4 := by
    simpa [Except.toOption] using declared
  exact ⟨generated, succeeds, exact, lengthEq, stackEq ▸ exact.stack, localsEq ▸ exact.locals⟩

end Routine

end Weaver
