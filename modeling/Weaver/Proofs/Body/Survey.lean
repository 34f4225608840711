import Mathlib.Data.Multiset.AddSub
import Weaver.Proofs.Body.Control

/-!
# Visiting states in any order

A `Survey` is the depth analysis under way: the states that are still to be visited, as a multiset,
and the depths found so far.  `Survey.Visits` takes any of the pending states next, so that its runs
are those of all orders; each of them ends.  The invariant `Survey.Valid` says that all that was
found is reached, and that what follows a visited state was visited or is pending.  It makes the
depths of every finished survey exactly those that are reached, and every failure a proof that the
code is not balanced.
-/

namespace Weaver.Body

/-- A table of depths that are known so far. -/
abbrev DepthTable (code : Array Instr) := Vector (Option Nat) code.size

/-- Visit one state: the states that are found behind it, and the table afterwards. -/
def visit (method : MethodRef) (positions : List (Label × Nat)) (code : Array Instr)
    (depths : DepthTable code) (state : Nat × Nat) :
    Except Code.Fault (List (Nat × Nat) × DepthTable code) :=
  if inside : state.1 < code.size then
    match depths[state.1] with
    | some known =>
        if known = state.2 then .ok ([], depths)
        else .error (.inconsistentDepth state.1 method known state.2)
    | none =>
        (successors method positions state.1 state.2 code[state.1]).map fun found =>
          (found, depths.set state.1 (some state.2))
  else .error (.fallsOffEnd method)

/-- Exploring a stack of states visits the top one first. -/
theorem explore_cons (method : MethodRef) (positions : List (Label × Nat)) (code : Array Instr)
    (state : Nat × Nat) (rest : List (Nat × Nat)) (depths : DepthTable code) :
    explore method positions code (state :: rest) depths =
      match visit method positions code depths state with
      | .error fault => .error fault
      | .ok (found, next) => explore method positions code (found ++ rest) next := by
  rcases state with ⟨index, depth⟩
  rw [explore]
  unfold visit
  by_cases inside : index < code.size
  · simp only [inside, ↓reduceDIte]
    split
    · rename_i known seen
      rw [seen]
      by_cases same : known = depth <;> simp [same]
    · rename_i unseen
      rw [unseen]
      cases successors method positions index depth code[index] <;> rfl
  · simp [inside]

/-- A visit finds a depth that is known, or gives a position its depth. -/
theorem visit_eq_ok {method : MethodRef} {positions : List (Label × Nat)} {code : Array Instr}
    {depths next : DepthTable code} {state : Nat × Nat} {found : List (Nat × Nat)}
    (visited : visit method positions code depths state = .ok (found, next)) :
    (depths[state.1]? = some (some state.2) ∧ found = [] ∧ next = depths) ∨
      ∃ inside : state.1 < code.size, depths[state.1] = none ∧
        successors method positions state.1 state.2 code[state.1] = .ok found ∧
        next = depths.set state.1 (some state.2) := by
  unfold visit at visited
  split at visited
  · rename_i inside
    split at visited
    · rename_i known seen
      split at visited
      · rename_i same
        cases visited
        exact .inl ⟨by rw [Vector.getElem?_eq_getElem inside, seen, same], rfl, rfl⟩
      · cases visited
    · rename_i unseen
      cases following : successors method positions state.1 state.2 code[state.1] with
      | error fault =>
          rw [following] at visited
          cases visited
      | ok states =>
          rw [following] at visited
          cases visited
          exact .inr ⟨inside, unseen, following, rfl⟩
  · cases visited

/-- A visit fails behind the end, at a position of another depth, or at the instruction. -/
theorem visit_eq_error {method : MethodRef} {positions : List (Label × Nat)} {code : Array Instr}
    {depths : DepthTable code} {state : Nat × Nat} {fault : Code.Fault}
    (visited : visit method positions code depths state = .error fault) :
    code.size ≤ state.1 ∨ (∃ known, depths[state.1]? = some (some known) ∧ known ≠ state.2) ∨
      ∃ inside : state.1 < code.size,
        successors method positions state.1 state.2 code[state.1] = .error fault := by
  unfold visit at visited
  split at visited
  · rename_i inside
    split at visited
    · rename_i known seen
      split at visited
      · cases visited
      · rename_i distinct
        exact .inr (.inl ⟨known, by rw [Vector.getElem?_eq_getElem inside, seen], distinct⟩)
    · cases following : successors method positions state.1 state.2 code[state.1] with
      | error cause =>
          rw [following] at visited
          cases visited
          exact .inr (.inr ⟨inside, following⟩)
      | ok states =>
          rw [following] at visited
          cases visited
  · rename_i outside
    exact .inl (Nat.le_of_not_lt outside)

/-- An analysis under way. -/
structure Survey (code : Array Instr) where
  pending : Multiset (Nat × Nat)
  depths : DepthTable code

namespace Survey

variable {method : MethodRef} {positions : List (Label × Nat)} {code : Array Instr}

/-- The analysis before its first visit. -/
def start (code : Array Instr) : Survey code := ⟨{(0, 0)}, .replicate _ none⟩

/-- Visit any one of the pending states. -/
inductive Visits (method : MethodRef) (positions : List (Label × Nat)) {code : Array Instr} :
    Survey code → Survey code → Prop
  | visit {state rest depths found next}
      (visited : visit method positions code depths state = .ok (found, next)) :
      Visits method positions ⟨state ::ₘ rest, depths⟩ ⟨Multiset.ofList found + rest, next⟩

/-- The analysis gives up at one of the pending states. -/
def Fails (method : MethodRef) (positions : List (Label × Nat)) (survey : Survey code)
    (fault : Code.Fault) : Prop :=
  ∃ state ∈ survey.pending, Body.visit method positions code survey.depths state = .error fault

/-- What bounds the visits that are left. -/
def effort (survey : Survey code) : Nat :=
  2 * survey.depths.count none + survey.pending.card

/-- A visit finds at most two states, and those only at a position that had no depth. -/
theorem effort_of_visit {state : Nat × Nat} {depths next : DepthTable code}
    {found : List (Nat × Nat)}
    (visited : Body.visit method positions code depths state = .ok (found, next)) :
    2 * next.count none + found.length ≤ 2 * depths.count none := by
  rcases visit_eq_ok visited with ⟨_, rfl, rfl⟩ | ⟨inside, unseen, following, rfl⟩
  · simp
  · have short := length_of_successors following
    have seen : 0 < depths.count none :=
      Vector.count_pos_iff.mpr (unseen ▸ Vector.getElem_mem inside)
    rw [Vector.count_set]
    simp only [unseen]
    simp
    omega

theorem Visits.effort_lt {before later : Survey code}
    (step : Visits method positions before later) : later.effort < before.effort := by
  cases step with
  | visit visited =>
      have bound := effort_of_visit visited
      simp only [effort, Multiset.card_cons, Multiset.card_add, Multiset.coe_card]
      omega

/-- In every order the analysis ends. -/
theorem wellFounded_visits (method : MethodRef) (positions : List (Label × Nat))
    (code : Array Instr) :
    WellFounded fun later before : Survey code => Visits method positions before later :=
  Subrelation.wf (fun step => step.effort_lt) (measure effort).wf

/-- While a state is pending, the analysis goes on or gives up. -/
theorem visits_or_fails (survey : Survey code) (unfinished : survey.pending ≠ 0) :
    (∃ later, Visits method positions survey later) ∨
      ∃ fault, survey.Fails method positions fault := by
  rcases survey with ⟨pending, depths⟩
  obtain ⟨state, member⟩ := Multiset.exists_mem_of_ne_zero unfinished
  cases visited : Body.visit method positions code depths state with
  | error fault => exact .inr ⟨fault, state, member, visited⟩
  | ok outcome =>
      obtain ⟨rest, rfl⟩ := Multiset.exists_cons_of_mem member
      exact .inl ⟨_, .visit visited⟩

/-- Exploring a stack is one order of visits: it ends with no state pending, or fails. -/
theorem explore_visits (method : MethodRef) (positions : List (Label × Nat)) (code : Array Instr)
    (stack : List (Nat × Nat)) (depths : DepthTable code) :
    ∃ last : Survey code,
      Relation.ReflTransGen (Visits method positions) ⟨stack, depths⟩ last ∧
        match explore method positions code stack depths with
        | .ok found => last = ⟨0, found⟩
        | .error fault => last.Fails method positions fault := by
  induction hsurvey : (⟨stack, depths⟩ : Survey code) using
      (wellFounded_visits method positions code).induction
      generalizing stack depths with
  | _ survey ih =>
      subst hsurvey
      cases stack with
      | nil =>
          refine ⟨⟨0, depths⟩, .refl, ?_⟩
          rw [explore]
      | cons state rest =>
          rw [explore_cons]
          cases visited : Body.visit method positions code depths state with
          | error fault => exact ⟨_, .refl, state, by simp, visited⟩
          | ok outcome =>
              rcases outcome with ⟨found, next⟩
              have step : Visits method positions
                  (⟨↑(state :: rest), depths⟩ : Survey code) ⟨↑(found ++ rest), next⟩ := by
                have visits : Visits method positions
                    (⟨state ::ₘ ↑rest, depths⟩ : Survey code) ⟨↑found + ↑rest, next⟩ :=
                  .visit visited
                simpa using visits
              obtain ⟨last, run, outcome⟩ := ih _ step (found ++ rest) next rfl
              exact ⟨last, .head step run, outcome⟩

/-- The state was visited. -/
def Knows (survey : Survey code) (state : Nat × Nat) : Prop :=
  survey.depths[state.1]? = some (some state.2)

/-- The state was visited or is pending. -/
def Covers (survey : Survey code) (state : Nat × Nat) : Prop :=
  survey.Knows state ∨ state ∈ survey.pending

/-- All that was found is reached, and what follows it is covered. -/
structure Valid (method : MethodRef) (positions : List (Label × Nat)) (instrs : List Instr)
    (survey : Survey instrs.toArray) : Prop where
  pending_reached : ∀ {state}, state ∈ survey.pending → Reaches instrs state.1 state.2
  known_reached : ∀ state, survey.Knows state → Reaches instrs state.1 state.2
  covers_start : survey.Covers (0, 0)
  closed : ∀ {state instr}, survey.Knows state → instrs[state.1]? = some instr →
    ∃ found, successors method positions state.1 state.2 instr = .ok found ∧
      ∀ following ∈ found, survey.Covers following

theorem valid_start (method : MethodRef) (positions : List (Label × Nat)) (instrs : List Instr) :
    (start instrs.toArray).Valid method positions instrs := by
  have unknown : ∀ state, ¬ (start instrs.toArray).Knows state := by
    intro state known
    simp only [Knows, start, Vector.getElem?_replicate] at known
    split at known <;> cases known
  refine ⟨?_, ?_, ?_, ?_⟩
  · intro state member
    cases Multiset.mem_singleton.mp member
    exact reaches_start instrs
  · intro state known
    exact absurd known (unknown state)
  · exact .inr (Multiset.mem_singleton_self _)
  · intro state instr known
    exact absurd known (unknown state)

variable {body : Body}

/-- A state that gets its depth is known from then on, and so are those before. -/
theorem knows_set_iff (pending : Multiset (Nat × Nat)) {later : Multiset (Nat × Nat)}
    {state : Nat × Nat} {depths : DepthTable code} (inside : state.1 < code.size)
    (unseen : depths[state.1] = none) (other : Nat × Nat) :
    (⟨later, depths.set state.1 (some state.2)⟩ : Survey code).Knows other ↔
      other = state ∨ (⟨pending, depths⟩ : Survey code).Knows other := by
  unfold Knows
  rw [Vector.getElem?_set]
  split
  · rename_i same
    have absent : depths[other.1]? = some none := by
      rw [← same, Vector.getElem?_eq_getElem inside, unseen]
    simp [absent, Prod.ext_iff, same, eq_comm]
  · rename_i distinct
    simp [Prod.ext_iff, Ne.symm distinct]

/-- A visit keeps the survey valid. -/
theorem Valid.visits {before later : Survey body.code.instrs.toArray}
    (collected : body.code.labelPositions = .ok positions)
    (valid : before.Valid method positions body.code.instrs)
    (step : Visits method positions before later) :
    later.Valid method positions body.code.instrs := by
  cases step with
  | @visit state rest depths found next visited =>
      have reached := valid.pending_reached (Multiset.mem_cons_self state rest)
      rcases visit_eq_ok visited with ⟨known, rfl, rfl⟩ | ⟨inside, unseen, following, rfl⟩
      · have covered : ∀ other, (⟨state ::ₘ rest, next⟩ : Survey _).Covers other →
            (⟨Multiset.ofList [] + rest, next⟩ : Survey _).Covers other := by
          rintro other (seen | member)
          · exact .inl seen
          · rcases Multiset.mem_cons.mp member with rfl | later
            · exact .inl known
            · exact .inr (by simpa)
        refine ⟨?_, valid.known_reached, covered _ valid.covers_start, ?_⟩
        · intro other member
          exact valid.pending_reached (Multiset.mem_cons_of_mem (by simpa using member))
        · intro other instr seen here
          obtain ⟨found, after, all⟩ := valid.closed seen here
          exact ⟨found, after, fun further member => covered _ (all further member)⟩
      · have here : body.code.instrs[state.1]? = some body.code.instrs.toArray[state.1] := by simp
        have covered : ∀ other, (⟨state ::ₘ rest, depths⟩ : Survey _).Covers other →
            (⟨Multiset.ofList found + rest, depths.set state.1 (some state.2)⟩ : Survey _).Covers
              other := by
          rintro other (seen | member)
          · exact .inl ((knows_set_iff (state ::ₘ rest) inside unseen other).mpr (.inr seen))
          · rcases Multiset.mem_cons.mp member with rfl | later
            · exact .inl ((knows_set_iff 0 inside unseen other).mpr (.inl rfl))
            · exact .inr (Multiset.mem_add.mpr (.inr later))
        refine ⟨?_, ?_, covered _ valid.covers_start, ?_⟩
        · intro other member
          rcases Multiset.mem_add.mp member with new | old
          · exact reached.follow
              ((mem_successors_iff collected here following other).mp (by simpa using new))
          · exact valid.pending_reached (Multiset.mem_cons_of_mem old)
        · intro other seen
          rcases (knows_set_iff (state ::ₘ rest) inside unseen other).mp seen with
            rfl | old
          · exact reached
          · exact valid.known_reached other old
        · intro other instr seen also
          rcases (knows_set_iff (state ::ₘ rest) inside unseen other).mp seen with
            rfl | old
          · cases here.symm.trans also
            refine ⟨found, following, fun further member => .inr ?_⟩
            exact Multiset.mem_add.mpr (.inl (by simpa using member))
          · obtain ⟨found, after, all⟩ := valid.closed old also
            exact ⟨found, after, fun further member => covered _ (all further member)⟩

/-- Every survey that visits lead to is valid. -/
theorem valid_of_visits {survey : Survey body.code.instrs.toArray}
    (collected : body.code.labelPositions = .ok positions)
    (run : Relation.ReflTransGen (Visits method positions) (start _) survey) :
    survey.Valid method positions body.code.instrs := by
  induction run with
  | refl => exact valid_start method positions body.code.instrs
  | tail _ step valid => exact valid.visits collected step

/-- When nothing is pending, the depths that are known are those that are reached. -/
theorem Valid.knows_iff {survey : Survey body.code.instrs.toArray}
    (collected : body.code.labelPositions = .ok positions)
    (valid : survey.Valid method positions body.code.instrs) (finished : survey.pending = 0)
    (state : Nat × Nat) : survey.Knows state ↔ Reaches body.code.instrs state.1 state.2 := by
  have known_of_covers : ∀ {other}, survey.Covers other → survey.Knows other := by
    rintro other (known | member)
    · exact known
    · rw [finished] at member
      exact absurd member (Multiset.notMem_zero other)
  have complete : ∀ {other}, Relation.ReflTransGen (Follows body.code.instrs) (0, 0) other →
      survey.Knows other := by
    intro other path
    induction path with
    | refl => exact known_of_covers valid.covers_start
    | @tail middle last _ step known =>
        have here : ∃ instr, body.code.instrs[middle.1]? = some instr := by
          cases step with
          | next here => exact ⟨_, here⟩
          | branch here => exact ⟨_, here⟩
        obtain ⟨instr, here⟩ := here
        obtain ⟨found, following, all⟩ := valid.closed known here
        have member := (mem_successors_iff collected here following last).mpr step
        exact known_of_covers (all last member)
  exact ⟨valid.known_reached state, complete⟩

/-- Code of which a survey was finished is balanced. -/
theorem Valid.balanced {survey : Survey body.code.instrs.toArray}
    (collected : body.code.labelPositions = .ok positions)
    (valid : survey.Valid method positions body.code.instrs) (finished : survey.pending = 0) :
    Balanced body.code.instrs where
  labels := (Code.labelPositions_isOk_iff body.code).mp ⟨positions, collected⟩
  inside := by
    intro depth reached
    have known := (valid.knows_iff collected finished (_, depth)).mpr reached
    simp [Knows] at known
  enough := by
    intro index depth instr reached here
    have known := (valid.knows_iff collected finished (index, depth)).mpr reached
    obtain ⟨found, following, _⟩ := valid.closed known here
    exact ((successors_isOk_iff collected method).mp ⟨found, following⟩).1
  target := by
    intro index depth instr label reached here target
    have known := (valid.knows_iff collected finished (index, depth)).mpr reached
    obtain ⟨found, following, _⟩ := valid.closed known here
    exact ((successors_isOk_iff collected method).mp ⟨found, following⟩).2 label target
  agree := by
    intro index first second reachedFirst reachedSecond
    have knownFirst := (valid.knows_iff collected finished (index, first)).mpr reachedFirst
    have knownSecond := (valid.knows_iff collected finished (index, second)).mpr reachedSecond
    exact Option.some.inj (Option.some.inj (knownFirst.symm.trans knownSecond))

/-- Code at which a survey fails is not balanced. -/
theorem Valid.not_balanced {survey : Survey body.code.instrs.toArray} {fault : Code.Fault}
    (collected : body.code.labelPositions = .ok positions)
    (valid : survey.Valid method positions body.code.instrs)
    (fails : survey.Fails method positions fault) : ¬ Balanced body.code.instrs := by
  intro balanced
  obtain ⟨state, member, visited⟩ := fails
  have reached := valid.pending_reached member
  obtain ⟨instr, here⟩ := balanced.exists_instr reached
  rcases visit_eq_error visited with outside | ⟨known, seen, distinct⟩ | ⟨inside, following⟩
  · have inside := (List.getElem?_eq_some_iff.mp here).1
    simp only [List.size_toArray] at outside
    omega
  · exact distinct (balanced.agree (valid.known_reached (state.1, known) seen) reached)
  · have also : body.code.instrs[state.1]? = some body.code.instrs.toArray[state.1] := by simp
    cases here.symm.trans also
    obtain ⟨found, succeeds⟩ := (successors_isOk_iff collected method).mpr
      ⟨balanced.enough reached here, fun label => balanced.target reached here⟩
    cases following.symm.trans succeeds

end Survey

end Weaver.Body
