import Weaver.Proofs.Body.Depths

/-!
# What a builder knows of the control flow

A builder takes up the instructions of a run in their order and tracks one depth.  Where every branch
goes forward, all branches to a label agree, and nothing but a label stands where control does not
come, what it knows is the control flow of the run: `Run.Builder.reaches_iff` says so for every
position, and the peak is the highest depth that control reaches.
-/

namespace Weaver.Run.Builder

variable {builder middle last : Builder}

/-- What is emitted behind other instructions is emitted by the builder that they leave. -/
theorem emitAll_append_eq {front back : List Instr}
    (first : builder.emitAll front = (.ok (), middle)) :
    builder.emitAll (front ++ back) = middle.emitAll back := by
  induction front generalizing builder with
  | nil =>
      cases first
      rfl
  | cons instr rest ih =>
      unfold emitAll at first
      split at first
      · cases first
      · rename_i next emitted
        rw [List.cons_append, emitAll, emitted]
        exact ih first

theorem emitAll_append {front back : List Instr} (first : builder.emitAll front = (.ok (), middle))
    (second : middle.emitAll back = (.ok (), last)) :
    builder.emitAll (front ++ back) = (.ok (), last) :=
  (emitAll_append_eq first).trans second

theorem emitAll_cons_iff {instr : Instr} {rest : List Instr} :
    builder.emitAll (instr :: rest) = (.ok (), last) ↔
      ∃ next, builder.emit instr = .ok next ∧ next.emitAll rest = (.ok (), last) := by
  rw [emitAll]
  cases builder.emit instr <;> simp

theorem exists_of_emitAll_append {front back : List Instr}
    (emitted : builder.emitAll (front ++ back) = (.ok (), last)) :
    ∃ middle, builder.emitAll front = (.ok (), middle) ∧ middle.emitAll back = (.ok (), last) := by
  induction front generalizing builder with
  | nil => exact ⟨builder, rfl, emitted⟩
  | cons instr rest ih =>
      obtain ⟨next, first, later⟩ := emitAll_cons_iff.mp emitted
      obtain ⟨middle, front, back⟩ := ih later
      exact ⟨middle, emitAll_cons_iff.mpr ⟨next, first, front⟩, back⟩

/-- An instruction is put behind others if it pops no more than they left. -/
theorem extend_eq_ok_iff {instr : Instr} {next : Builder} :
    builder.extend instr = .ok next ↔
      instr.effect.pops ≤ builder.depth ∧
        next =
          { emitted := builder.emitted.push instr
            depth := instr.effect.after builder.depth
            peak := max builder.peak (instr.effect.after builder.depth)
            reachable := builder.reachable && instr.fallsThrough
            labelDepths := noteTarget builder.labelDepths (instr.effect.after builder.depth)
              instr.target? } := by
  unfold extend
  by_cases shallow : builder.depth < instr.effect.pops
  · simp [shallow, Nat.not_le.mpr shallow]
  · rw [if_neg shallow, Except.ok.injEq, eq_comm]
    exact (and_iff_right (Nat.le_of_not_lt shallow)).symm

/-- The depth at a label is that of the first branch to it. -/
theorem lookup_noteTarget (labelDepths : List (Label × Nat)) (depth : Nat) (target? : Option Label)
    (label : Label) :
    (noteTarget labelDepths depth target?).lookup label =
      (labelDepths.lookup label).or (if target? = some label then some depth else none) := by
  cases target? with
  | none => simp [noteTarget]
  | some target =>
      simp only [noteTarget]
      by_cases same : target = label
      · subst same
        cases known : labelDepths.lookup target <;> simp [known]
      · have different : (label == target) = false := by simpa using Ne.symm same
        split <;> simp [same, List.lookup_cons, different]

theorem exists_emitAll_of_ofList {instrs : List Instr} {run : Run}
    (made : ofList instrs = .ok run) :
    ∃ last, empty.emitAll instrs = (.ok (), last) ∧ run.peak = last.peak := by
  unfold ofList at made
  split at made
  · cases made
  · rename_i last emitted
    cases made
    exact ⟨last, emitted, rfl⟩

/-! ## The builder along a list -/

/-- The builder in front of the instruction at a position. -/
def stage (instrs : List Instr) (position : Nat) : Builder :=
  (empty.emitAll (instrs.take position)).2

/-- The builder in front of the instruction at a position, which may be a label with branches. -/
def arrival (instrs : List Instr) (position : Nat) : Builder :=
  match instrs[position]? with
  | some instr => (stage instrs position).arrive instr
  | none => stage instrs position

variable {instrs : List Instr} {position origin depth : Nat} {instr : Instr} {label : Label}

theorem stage_length (emitted : empty.emitAll instrs = (.ok (), last)) :
    stage instrs instrs.length = last := by
  rw [stage, List.take_length, emitted]

theorem emitAll_stage {front back : List Instr}
    (emitted : empty.emitAll (front ++ back) = (.ok (), last)) :
    empty.emitAll front = (.ok (), stage (front ++ back) front.length) := by
  obtain ⟨middle, first, _⟩ := exists_of_emitAll_append emitted
  rw [stage, List.take_left, first]

theorem emit_stage (emitted : empty.emitAll instrs = (.ok (), last))
    (here : instrs[position]? = some instr) :
    (stage instrs position).emit instr = .ok (stage instrs (position + 1)) := by
  obtain ⟨inside, rfl⟩ := List.getElem?_eq_some_iff.mp here
  have split : instrs = instrs.take position ++ instrs[position] :: instrs.drop (position + 1) := by
    rw [List.getElem_cons_drop, List.take_append_drop]
  have whole := emitted
  rw [split] at whole
  obtain ⟨middle, front, back⟩ := exists_of_emitAll_append whole
  obtain ⟨next, once, _⟩ := emitAll_cons_iff.mp back
  have further : empty.emitAll (instrs.take (position + 1)) = (.ok (), next) := by
    rw [List.take_succ_eq_append_getElem inside]
    exact emitAll_append front (emitAll_cons_iff.mpr ⟨next, once, rfl⟩)
  rw [stage, stage, front, further]
  exact once

/-- What the builder knows behind an instruction. -/
theorem stage_succ (emitted : empty.emitAll instrs = (.ok (), last))
    (here : instrs[position]? = some instr) :
    instr.effect.pops ≤ (arrival instrs position).depth ∧
      (stage instrs (position + 1)).depth = instr.effect.after (arrival instrs position).depth ∧
      (stage instrs (position + 1)).peak = max (stage instrs position).peak
        (instr.effect.after (arrival instrs position).depth) ∧
      (stage instrs (position + 1)).reachable =
        ((arrival instrs position).reachable && instr.fallsThrough) ∧
      (stage instrs (position + 1)).labelDepths =
        noteTarget (stage instrs position).labelDepths
          (instr.effect.after (arrival instrs position).depth) instr.target? := by
  have extended : (arrival instrs position).extend instr = .ok (stage instrs (position + 1)) := by
    rw [arrival, here]
    exact emit_stage emitted here
  have kept : (arrival instrs position).peak = (stage instrs position).peak ∧
      (arrival instrs position).labelDepths = (stage instrs position).labelDepths := by
    rw [arrival, here]
    unfold arrive
    dsimp only
    split <;> exact ⟨rfl, rfl⟩
  obtain ⟨enough, stageEq⟩ := extend_eq_ok_iff.mp extended
  rw [stageEq, ← kept.1, ← kept.2]
  exact ⟨enough, rfl, rfl, rfl, rfl⟩

theorem depth_stage_le (emitted : empty.emitAll instrs = (.ok (), last))
    (inside : position ≤ instrs.length) : (stage instrs position).depth ≤ slotLimit := by
  cases position with
  | zero => exact Nat.zero_le _
  | succ position =>
      rw [(stage_succ emitted (List.getElem?_eq_getElem inside)).2.1]
      exact Effect.after_le _ _

/-- In front of an instruction the builder knows what it knew behind the last one, or it is at a
label with branches. -/
theorem arrival_cases (instrs : List Instr) (position : Nat) :
    arrival instrs position = stage instrs position ∨
      ∃ label depth, Code.DefinedAt instrs label position ∧
        (stage instrs position).labelDepths.lookup label = some depth ∧
        arrival instrs position = { stage instrs position with depth, reachable := true } := by
  unfold arrival
  split
  · rename_i instr here
    unfold arrive
    split
    · rename_i depth noted
      obtain ⟨label, defines, known⟩ := Option.bind_eq_some_iff.mp noted
      cases instr with
      | label found =>
          cases defines
          exact .inr ⟨label, depth, here, known, rfl⟩
      | _ => cases defines
    · exact .inl rfl
  · exact .inl rfl

theorem arrival_of_unlabelled (here : instrs[position]? = some instr)
    (unlabelled : instr.definition? = none) : arrival instrs position = stage instrs position := by
  rw [arrival, here]
  simp [arrive, unlabelled]

/-- The depth that is noted for a label is that behind a branch to it. -/
theorem exists_branch_of_noted (emitted : empty.emitAll instrs = (.ok (), last))
    (inside : position ≤ instrs.length)
    (noted : (stage instrs position).labelDepths.lookup label = some depth) :
    ∃ origin < position, ∃ instr, instrs[origin]? = some instr ∧ instr.target? = some label ∧
      instr.effect.after (arrival instrs origin).depth = depth := by
  induction position with
  | zero => cases noted
  | succ position ih =>
      have here : instrs[position]? = some instrs[position] := List.getElem?_eq_getElem inside
      obtain ⟨_, _, _, _, notes⟩ := stage_succ emitted here
      rw [notes, lookup_noteTarget, Option.or_eq_some_iff] at noted
      rcases noted with before | ⟨_, now⟩
      · obtain ⟨origin, earlier, found⟩ := ih (Nat.le_of_lt inside) before
        exact ⟨origin, Nat.lt_succ_of_lt earlier, found⟩
      · split at now
        · rename_i target
          exact ⟨position, Nat.lt_succ_self _, _, here, target, Option.some.inj now⟩
        · cases now

/-- What was noted for a label stays. -/
theorem noted_of_le (emitted : empty.emitAll instrs = (.ok (), last)) (le : origin ≤ position)
    (inside : position ≤ instrs.length)
    (noted : (stage instrs origin).labelDepths.lookup label = some depth) :
    (stage instrs position).labelDepths.lookup label = some depth := by
  induction position, le using Nat.le_induction with
  | base => exact noted
  | succ position _ ih =>
      have here : instrs[position]? = some instrs[position] := List.getElem?_eq_getElem inside
      obtain ⟨_, _, _, _, notes⟩ := stage_succ emitted here
      rw [notes, lookup_noteTarget, ih (Nat.le_of_lt inside)]
      rfl

/-! ## Control flow -/

open Body

/-- Nothing but a label stands where the builder finds that control does not come. -/
def Live (instrs : List Instr) : Prop :=
  ∀ position instr, instrs[position]? = some instr →
    instr.isLabel = true ∨ (stage instrs position).reachable = true

theorem unlabelled_of_branch (goes : instr.target? = some label) :
    instr.definition? = none ∧ instr.isLabel = false := by
  cases instr with
  | jump => exact ⟨rfl, rfl⟩
  | _ => cases goes

theorem Live.reachable_of_branch (live : Live instrs) (here : instrs[origin]? = some instr)
    (goes : instr.target? = some label) : (arrival instrs origin).reachable = true := by
  obtain ⟨unlabelled, noLabel⟩ := unlabelled_of_branch goes
  rw [arrival_of_unlabelled here unlabelled]
  exact (live origin instr here).resolve_left (by simp [noLabel])

/-- Where the builder finds that control comes, it comes with the depth that the builder tracks. -/
theorem reaches_of_reachable (emitted : empty.emitAll instrs = (.ok (), last))
    (live : Live instrs) (inside : position ≤ instrs.length)
    (reachable : (arrival instrs position).reachable = true) :
    Reaches instrs position (arrival instrs position).depth := by
  induction position using Nat.strong_induction_on with
  | h position ih =>
      rcases arrival_cases instrs position with same | ⟨label, depth, defined, noted, arrivalEq⟩
      · cases position with
        | zero =>
            rw [same]
            exact reaches_start instrs
        | succ position =>
            have here : instrs[position]? = some instrs[position] :=
              List.getElem?_eq_getElem inside
            obtain ⟨enough, depthEq, _, reachableEq, _⟩ := stage_succ emitted here
            rw [same, reachableEq, Bool.and_eq_true] at reachable
            rw [same, depthEq]
            exact (ih position (Nat.lt_succ_self _) (Nat.le_of_lt inside) reachable.1).follow
              (.next here enough reachable.2)
      · obtain ⟨origin, earlier, instr, here, target, depthEq⟩ :=
          exists_branch_of_noted emitted inside noted
        have comes := live.reachable_of_branch here target
        obtain ⟨enough, _⟩ := stage_succ emitted here
        rw [arrivalEq, ← depthEq]
        exact (ih origin earlier (by omega) comes).follow (.branch here enough target defined)

/-- A run whose depths a builder can tell as it goes: branches go forward, and all ways to a label
bring the same depth. -/
structure Coherent (instrs : List Instr) : Prop where
  live : Live instrs
  forward : ∀ {position instr label target}, instrs[position]? = some instr →
    instr.target? = some label → Code.DefinedAt instrs label target → position < target
  meets : ∀ {position instr label depth}, instrs[position]? = some instr →
    instr.target? = some label →
    (stage instrs position).labelDepths.lookup label = some depth →
    instr.effect.after (stage instrs position).depth = depth
  joins : ∀ {position label depth}, Code.DefinedAt instrs label position →
    (stage instrs position).labelDepths.lookup label = some depth →
    (stage instrs position).reachable = true → (stage instrs position).depth = depth

/-- Where control falls through, the builder tracks its depth. -/
theorem Coherent.arrival_of_fall (coherent : Coherent instrs)
    (reachable : (stage instrs position).reachable = true) :
    (arrival instrs position).reachable = true ∧
      (arrival instrs position).depth = (stage instrs position).depth := by
  rcases arrival_cases instrs position with same | ⟨label, depth, defined, noted, arrivalEq⟩
  · rw [same]
    exact ⟨reachable, rfl⟩
  · rw [arrivalEq]
    exact ⟨rfl, (coherent.joins defined noted reachable).symm⟩

/-- Where control branches to, the builder tracks its depth. -/
theorem Coherent.arrival_of_branch (coherent : Coherent instrs)
    (emitted : empty.emitAll instrs = (.ok (), last)) (here : instrs[origin]? = some instr)
    (target : instr.target? = some label) (defined : Code.DefinedAt instrs label position) :
    (arrival instrs position).reachable = true ∧
      (arrival instrs position).depth = instr.effect.after (arrival instrs origin).depth := by
  have same := arrival_of_unlabelled here (unlabelled_of_branch target).1
  obtain ⟨_, _, _, _, notes⟩ := stage_succ emitted here
  have first : (stage instrs (origin + 1)).labelDepths.lookup label =
      some (instr.effect.after (arrival instrs origin).depth) := by
    rw [notes, lookup_noteTarget, if_pos target]
    cases known : (stage instrs origin).labelDepths.lookup label with
    | none => rfl
    | some depth =>
        rw [same, coherent.meets here target known]
        rfl
  have noted := noted_of_le emitted (coherent.forward here target defined)
    (Nat.le_of_lt defined.lt) first
  have arrivalEq : arrival instrs position =
      { stage instrs position with
          depth := instr.effect.after (arrival instrs origin).depth, reachable := true } := by
    have labelled : instrs[position]? = some (.label label) := defined
    rw [arrival, labelled]
    simp only [arrive, Instr.definition?, Option.bind_some, noted]
  rw [arrivalEq]
  exact ⟨rfl, rfl⟩

/-- Wherever control comes, the builder finds that it does, and tracks its depth. -/
theorem Coherent.arrival_of_reaches (coherent : Coherent instrs)
    (emitted : empty.emitAll instrs = (.ok (), last)) {state : Nat × Nat}
    (path : Relation.ReflTransGen (Follows instrs) (0, 0) state) :
    (arrival instrs state.1).reachable = true ∧ (arrival instrs state.1).depth = state.2 := by
  induction path with
  | refl => exact coherent.arrival_of_fall rfl
  | tail _ step ih =>
      cases step with
      | @next position depth instr here _ falls =>
          obtain ⟨reachable, depthEq⟩ := ih
          obtain ⟨_, stageDepth, _, stageReachable, _⟩ := stage_succ emitted here
          rw [reachable, falls] at stageReachable
          obtain ⟨comes, arrivalDepth⟩ := coherent.arrival_of_fall stageReachable
          refine ⟨comes, ?_⟩
          rw [arrivalDepth, stageDepth, depthEq]
      | branch here _ target defined =>
          obtain ⟨comes, arrivalDepth⟩ :=
            coherent.arrival_of_branch emitted here target defined
          exact ⟨comes, arrivalDepth.trans (congrArg _ ih.2)⟩

/-- The builder knows the control flow of a coherent run, up to the position behind it. -/
theorem Coherent.reaches_iff (coherent : Coherent instrs)
    (emitted : empty.emitAll instrs = (.ok (), last)) (inside : position ≤ instrs.length) :
    Reaches instrs position depth ↔
      (arrival instrs position).reachable = true ∧ (arrival instrs position).depth = depth := by
  constructor
  · exact coherent.arrival_of_reaches emitted
  · rintro ⟨reachable, rfl⟩
    exact reaches_of_reachable emitted coherent.live inside reachable

/-- Wherever control comes, an instruction finds what it pops. -/
theorem Coherent.enough (coherent : Coherent instrs)
    (emitted : empty.emitAll instrs = (.ok (), last)) (reached : Reaches instrs position depth)
    (here : instrs[position]? = some instr) : instr.effect.pops ≤ depth := by
  obtain ⟨_, rfl⟩ := (coherent.reaches_iff emitted reached.le_length).mp reached
  exact (stage_succ emitted here).1

/-- Control comes to each position with one depth. -/
theorem Coherent.agree (coherent : Coherent instrs)
    (emitted : empty.emitAll instrs = (.ok (), last)) {first second : Nat}
    (reachedFirst : Reaches instrs position first)
    (reachedSecond : Reaches instrs position second) : first = second := by
  have inside : position ≤ instrs.length := reachedFirst.le_length
  obtain ⟨_, rfl⟩ := (coherent.reaches_iff emitted inside).mp reachedFirst
  exact ((coherent.reaches_iff emitted inside).mp reachedSecond).2

/-- Behind its last instruction the builder knows the control flow as it does at the end. -/
theorem Coherent.reaches_length_iff (coherent : Coherent instrs)
    (emitted : empty.emitAll instrs = (.ok (), last)) :
    Reaches instrs instrs.length depth ↔ last.reachable = true ∧ last.depth = depth := by
  have behind : arrival instrs instrs.length = last := by
    rw [arrival, List.getElem?_eq_none (Nat.le_refl _)]
    exact stage_length emitted
  rw [coherent.reaches_iff emitted (Nat.le_refl _), behind]

/-- Coherent code that control leaves before its end is balanced. -/
theorem Coherent.balanced (coherent : Coherent instrs)
    (emitted : empty.emitAll instrs = (.ok (), last)) (labels : Code.UniqueLabels instrs)
    (targets : ∀ instr ∈ instrs, ∀ label, instr.target? = some label →
      Instr.label label ∈ instrs)
    (leaves : last.reachable = false) : Balanced instrs where
  labels
  inside := by
    intro depth reached
    have comes := ((coherent.reaches_length_iff emitted).mp reached).1
    rw [leaves] at comes
    cases comes
  enough := coherent.enough emitted
  target _ here := targets _ (List.mem_of_getElem? here) _
  agree := coherent.agree emitted

/-! ## The peak -/

/-- Where control does not come, an instruction leaves the depth as it is. -/
theorem after_of_unreachable (emitted : empty.emitAll instrs = (.ok (), last)) (live : Live instrs)
    (here : instrs[position]? = some instr)
    (unreachable : (arrival instrs position).reachable = false) :
    instr.effect.after (arrival instrs position).depth = (stage instrs position).depth := by
  rcases arrival_cases instrs position with same | ⟨_, _, _, _, arrivalEq⟩
  · rw [same] at unreachable ⊢
    have isLabel := (live position instr here).resolve_right (by simp [unreachable])
    cases instr with
    | label =>
        exact Effect.after_eq
          (depth_stage_le emitted (Nat.le_of_lt (List.getElem?_eq_some_iff.mp here).1))
    | _ => cases isLabel
  · rw [arrivalEq] at unreachable
    cases unreachable

/-- The peak covers every depth that the builder tracked, and is that of the start or one behind an
instruction to which control comes. -/
theorem peak_stage (emitted : empty.emitAll instrs = (.ok (), last)) (live : Live instrs)
    (inside : position ≤ instrs.length) :
    (stage instrs position).depth ≤ (stage instrs position).peak ∧
      (∀ origin instr, origin < position → instrs[origin]? = some instr →
        instr.effect.after (arrival instrs origin).depth ≤ (stage instrs position).peak) ∧
      ((stage instrs position).peak = 0 ∨ ∃ origin < position, ∃ instr,
        instrs[origin]? = some instr ∧ (arrival instrs origin).reachable = true ∧
          instr.effect.after (arrival instrs origin).depth = (stage instrs position).peak) := by
  induction position with
  | zero => exact ⟨Nat.le_refl _, fun _ _ before => absurd before (Nat.not_lt_zero _), .inl rfl⟩
  | succ position ih =>
      have here : instrs[position]? = some instrs[position] := List.getElem?_eq_getElem inside
      obtain ⟨below, covered, attained⟩ := ih (Nat.le_of_lt inside)
      obtain ⟨_, depthEq, peakEq, _, _⟩ := stage_succ emitted here
      rw [depthEq, peakEq]
      refine ⟨Nat.le_max_right _ _, ?_, ?_⟩
      · intro origin instr before found
        rcases Nat.lt_succ_iff_lt_or_eq.mp before with earlier | rfl
        · exact (covered origin instr earlier found).trans (Nat.le_max_left _ _)
        · cases here.symm.trans found
          exact Nat.le_max_right _ _
      · have stays : (stage instrs position).peak = 0 ∨ ∃ origin < position + 1, ∃ instr,
            instrs[origin]? = some instr ∧ (arrival instrs origin).reachable = true ∧
              instr.effect.after (arrival instrs origin).depth = (stage instrs position).peak := by
          rcases attained with atStart | ⟨origin, earlier, found⟩
          · exact .inl atStart
          · exact .inr ⟨origin, Nat.lt_succ_of_lt earlier, found⟩
        cases comes : (arrival instrs position).reachable with
        | false =>
            rw [after_of_unreachable emitted live here comes, Nat.max_eq_left below]
            exact stays
        | true =>
            rcases max_choice (stage instrs position).peak
              (instrs[position].effect.after (arrival instrs position).depth) with old | new
            · rw [old]
              exact stays
            · exact .inr ⟨position, Nat.lt_succ_self _, _, here, comes, new.symm⟩

/-- A depth that the builder tracks in front of an instruction is covered by the peak. -/
theorem depth_arrival_le (emitted : empty.emitAll instrs = (.ok (), last)) (live : Live instrs)
    (inside : position ≤ instrs.length) :
    (arrival instrs position).depth ≤ last.peak := by
  have covers := (peak_stage emitted live (Nat.le_refl _)).2.1
  rw [stage_length emitted] at covers
  rcases arrival_cases instrs position with same | ⟨_, depth, _, noted, arrivalEq⟩
  · rw [same]
    cases position with
    | zero => exact Nat.zero_le _
    | succ position =>
        have here : instrs[position]? = some instrs[position] := List.getElem?_eq_getElem inside
        rw [(stage_succ emitted here).2.1]
        exact covers position _ inside here
  · obtain ⟨origin, earlier, instr, here, _, depthEq⟩ :=
      exists_branch_of_noted emitted inside noted
    rw [arrivalEq, ← depthEq]
    exact covers origin instr (Nat.lt_of_lt_of_le earlier inside) here

/-- The peak of a coherent run is the highest depth that control reaches in it. -/
theorem Coherent.isGreatest_peak (coherent : Coherent instrs)
    (emitted : empty.emitAll instrs = (.ok (), last)) (nonempty : instrs ≠ []) :
    IsGreatest (heights instrs) last.peak := by
  obtain ⟨_, covers, attained⟩ := peak_stage emitted coherent.live (Nat.le_refl _)
  rw [stage_length emitted] at covers attained
  constructor
  · rcases attained with atStart | ⟨origin, inside, instr, here, reachable, depthEq⟩
    · obtain ⟨first, rest, codeEq⟩ := List.exists_cons_of_ne_nil nonempty
      exact ⟨0, 0, first, reaches_start _, by simp [codeEq], .inl atStart⟩
    · have reached := (coherent.reaches_iff emitted (Nat.le_of_lt inside)).mpr ⟨reachable, rfl⟩
      exact ⟨origin, _, instr, reached, here, .inr depthEq.symm⟩
  · rintro height ⟨position, depth, instr, reached, here, side⟩
    have inside : position < instrs.length := (List.getElem?_eq_some_iff.mp here).1
    obtain ⟨_, rfl⟩ := (coherent.reaches_iff emitted (Nat.le_of_lt inside)).mp reached
    rcases side with rfl | rfl
    · exact depth_arrival_le emitted coherent.live (Nat.le_of_lt inside)
    · exact covers position instr inside here

/-! ## Straight code -/

/-- Instructions of which each leads to the next one only. -/
def Straight (instrs : List Instr) : Prop :=
  ∀ instr ∈ instrs, instr.definition? = none ∧ instr.target? = none ∧ instr.fallsThrough = true

/-- The depth behind instructions that are carried out one after the other. -/
def depthBehind (depth : Nat) (instrs : List Instr) : Nat :=
  instrs.foldl (fun depth instr => instr.effect.after depth) depth

/-- Straight code changes the depth, and nothing else that the builder knows of the control flow. -/
theorem Straight.emitAll (straight : Straight instrs)
    (emitted : builder.emitAll instrs = (.ok (), last)) :
    last.depth = depthBehind builder.depth instrs ∧ last.reachable = builder.reachable ∧
      last.labelDepths = builder.labelDepths := by
  induction instrs generalizing builder with
  | nil =>
      cases emitted
      exact ⟨rfl, rfl, rfl⟩
  | cons instr rest ih =>
      obtain ⟨next, once, later⟩ := emitAll_cons_iff.mp emitted
      obtain ⟨unlabelled, untargeted, falls⟩ := straight instr List.mem_cons_self
      have extended : builder.extend instr = .ok next := by
        simpa [emit, arrive, unlabelled] using once
      obtain ⟨_, rfl⟩ := extend_eq_ok_iff.mp extended
      obtain ⟨depthEq, reachableEq, notesEq⟩ :=
        ih (fun other member => straight other (List.mem_cons_of_mem _ member)) later
      refine ⟨depthEq, ?_, ?_⟩
      · rw [reachableEq, falls, Bool.and_true]
      · rw [notesEq, untargeted]
        rfl

theorem Straight.append {front back : List Instr} (first : Straight front)
    (second : Straight back) : Straight (front ++ back) := by
  intro instr member
  rcases List.mem_append.mp member with before | behind
  · exact first instr before
  · exact second instr behind

/-- Behind instructions that all fall through the builder finds that control comes. -/
theorem reachable_stage (emitted : empty.emitAll instrs = (.ok (), last))
    (inside : position ≤ instrs.length)
    (falls : ∀ origin instr, origin < position → instrs[origin]? = some instr →
      instr.fallsThrough = true) : (stage instrs position).reachable = true := by
  induction position with
  | zero => rfl
  | succ position ih =>
      have here : instrs[position]? = some instrs[position] := List.getElem?_eq_getElem inside
      obtain ⟨_, _, _, reachableEq, _⟩ := stage_succ emitted here
      have before : (stage instrs position).reachable = true :=
        ih (Nat.le_of_lt inside) fun origin instr earlier =>
          falls origin instr (Nat.lt_succ_of_lt earlier)
      have comes : (arrival instrs position).reachable = true := by
        rcases arrival_cases instrs position with same | ⟨_, _, _, _, arrivalEq⟩
        · rw [same]
          exact before
        · rw [arrivalEq]
      rw [reachableEq, comes, falls position _ (Nat.lt_succ_self _) here]
      rfl

/-- Code without labels and branches that control goes through up to its last instruction is
coherent. -/
theorem coherent_of_unbranched
    (unbranched : ∀ instr ∈ instrs, instr.definition? = none ∧ instr.target? = none)
    (falls : ∀ origin instr, origin + 1 < instrs.length → instrs[origin]? = some instr →
      instr.fallsThrough = true)
    (emitted : empty.emitAll instrs = (.ok (), last)) : Coherent instrs where
  live := by
    intro position instr here
    have inside : position < instrs.length := (List.getElem?_eq_some_iff.mp here).1
    refine .inr (reachable_stage emitted (Nat.le_of_lt inside) ?_)
    intro origin other before there
    exact falls origin other (Nat.lt_of_le_of_lt before inside) there
  forward := by
    intro position instr label target here branches
    rw [(unbranched instr (List.mem_of_getElem? here)).2] at branches
    cases branches
  meets := by
    intro position instr label depth here branches
    rw [(unbranched instr (List.mem_of_getElem? here)).2] at branches
    cases branches
  joins := by
    intro position label depth defined
    cases (unbranched _ defined.mem).1

theorem Straight.coherent (straight : Straight instrs)
    (emitted : empty.emitAll instrs = (.ok (), last)) : Coherent instrs := by
  apply coherent_of_unbranched _ _ emitted
  · exact fun instr member => ⟨(straight instr member).1, (straight instr member).2.1⟩
  · exact fun _ instr _ here => (straight instr (List.mem_of_getElem? here)).2.2

end Weaver.Run.Builder
