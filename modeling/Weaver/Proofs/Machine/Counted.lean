import Weaver.Proofs.Body.Bounds
import Weaver.Proofs.Machine.Depth
import Weaver.Proofs.Machine.Straight

/-!
# Executions keep to depths that can be counted

The depths of the analysis have 16 bits and wrap.  Along every run of a body none of whose paths takes
more slots than that, they are the numbers of slots on the stack.  A body with more of them may pass
the analysis, and is then stopped by the stack that it declares.
-/

namespace Weaver.Machine.Interpreter

open Body

theorem exists_entered {body : Body} {depths : List (Option Nat)} {args : List Value}
    (accounted : body.Accounted depths) (takes : Takes body args) :
    ∃ first, Frame.enter body args = .ok first ∧ first.Stands body 0 0 := by
  obtain ⟨labels, collected⟩ :=
    (Code.labelPositions_isOk_iff body.code).mpr accounted.balanced.labels
  obtain ⟨locals, entered, _, _⟩ := Frame.enter_eq_ok takes collected accounted.arguments_le
  exact ⟨_, entered, rfl, rfl, collected, rfl, trivial, rfl⟩

/-- The depth analysis is sound for the interpreter where no path takes more slots than can be
counted.  A body of known depths whose bounds cover what it needs is then entered by its arguments, and
as long as calls and fields give values of their declared kinds, every instruction finds exactly the
analysed number of slots on the stack, and the frame never meets a fault of bookkeeping: one that a
step or a bounded run ends with is what a called method answered. -/
theorem run_keeps_depths (interpreter : Interpreter) (behaviour : Behaviour) (body : Body)
    (depths : List (Option Nat)) (args : List Value) (world : World)
    (accounted : body.Accounted depths) (countable : Body.Countable body.code.instrs)
    (takes : Takes body args) :
    ∃ first, Frame.enter body args = .ok first ∧
      (∀ frame now, Relation.ReflTransGen (interpreter.AdvancesDeclared behaviour)
          (first, world) (frame, now) →
        (∃ depth, depths[frame.pc]? = some (some depth) ∧ frame.stack.length = depth) ∧
        ∀ fault last, interpreter.GivesDeclared behaviour frame now →
          interpreter.step behaviour frame now = (.error fault, last) →
          fault.isBookkeeping = true →
          interpreter.answer? behaviour frame now = some (.error fault, last)) ∧
      ∀ steps fault last,
        (∀ state, Relation.ReflTransGen (interpreter.Advances behaviour) (first, world) state →
          interpreter.GivesDeclared behaviour state.1 state.2) →
        interpreter.run behaviour steps first world = (.error fault, last) →
        fault.isBookkeeping = true →
        ∃ state, Relation.ReflTransGen (interpreter.Advances behaviour) (first, world) state ∧
          interpreter.answer? behaviour state.1 state.2 = some (.error fault, last) := by
  obtain ⟨first, entered, stands⟩ := exists_entered accounted takes
  refine ⟨first, entered, ?_, ?_⟩
  · intro frame now run
    obtain ⟨index, depth, reached, standsHere⟩ := stands_of_advances stands accounted countable run
    refine ⟨⟨depth, ?_, standsHere.depth_eq⟩, ?_⟩
    · rw [standsHere.pc_eq]
      exact (accounted.records.known_iff index depth).mpr reached
    · intro fault last declared failed book
      exact (step_of_stands standsHere accounted countable reached declared).2 fault last failed book
  · intro steps fault last declared failed book
    rcases exists_of_run_eq_error failed with limit | ⟨state, run, failing⟩
    · rw [limit] at book
      cases book
    · obtain ⟨index, depth, reached, standsHere⟩ :=
        stands_of_advances stands accounted countable (declared_of_advances declared run)
      have given := declared state run
      exact ⟨state, run, (step_of_stands standsHere accounted countable reached given).2 fault last
        failing book⟩

theorem accounted_countdown :
    Body.countdown.Accounted
      [some 0, some 2, some 2, some 3, some 2, some 3, some 4, some 3, some 2, none, some 2,
        some 2] where
  nonempty := by decide
  analysed := Body.stackDepths_countdown
  stack := ⟨4, by decide +kernel, by decide⟩
  locals := by decide
  within := ⟨by decide, by decide, by decide⟩

theorem run_keeps_depths_countdown :
    Body.countdown.Accounted
        [some 0, some 2, some 2, some 3, some 2, some 3, some 4, some 3, some 2, none, some 2,
          some 2] ∧
      Body.Countable Body.countdown.code.instrs ∧ Takes Body.countdown [.int 3] ∧
      ∃ first, Frame.enter Body.countdown [.int 3] = .ok first ∧
        ∀ frame now, Relation.ReflTransGen
            (AdvancesDeclared ⟨.empty, .standard⟩ fun _ _ world => (.ok none, world))
            (first, .fresh .standard .empty) (frame, now) →
          frame.pc ≠ 9 := by
  have takes : Takes Body.countdown [.int 3] := by decide
  obtain ⟨first, entered, along, _⟩ := run_keeps_depths ⟨.empty, .standard⟩
    (fun _ _ world => (.ok none, world)) Body.countdown _ [.int 3] (.fresh .standard .empty)
    accounted_countdown Body.countable_countdown takes
  refine ⟨accounted_countdown, Body.countable_countdown, takes, first, entered,
    fun frame now run atNine => ?_⟩
  obtain ⟨depth, known, _⟩ := (along frame now run).1
  rw [atNine] at known
  cases known

variable {index depth : Nat} {instr : Instr}

/-- Wide constants that are pushed one above the other, with all the stack that can be declared. -/
def piling (count : Nat) : Body :=
  { Body.ofNames "a/B" "m" ⟨[], .void⟩ ⟨9⟩ with
    code := .ofList (List.replicate count (.const (.long 0)) ++ [.ret none])
    maxStack := slotLimit }

theorem instrs_piling (count : Nat) :
    (piling count).code.instrs = List.replicate count (.const (.long 0)) ++ [.ret none] := rfl

theorem piling_cases {count : Nat} (here : (piling count).code.instrs[index]? = some instr) :
    index < count ∧ instr = .const (.long 0) ∨ index = count ∧ instr = .ret none := by
  rw [instrs_piling] at here
  rcases Nat.lt_or_ge index count with before | behind
  · rw [List.getElem?_append_left (by simpa using before), List.getElem?_replicate,
      if_pos before] at here
    exact .inl ⟨before, (Option.some.inj here).symm⟩
  · rw [List.getElem?_append_right (by simpa using behind), List.length_replicate,
      List.getElem?_singleton] at here
    split at here
    · exact .inr ⟨by omega, (Option.some.inj here).symm⟩
    · cases here

theorem fetched_piling {count depth : Nat} {frame : Frame}
    (stands : frame.Stands (piling count) index depth) (before : index < count) :
    frame.code[frame.pc]? = some (.const (.long 0)) := by
  rw [stands.code_eq, stands.pc_eq, List.getElem?_toArray, instrs_piling,
    List.getElem?_append_left (by simpa using before), List.getElem?_replicate, if_pos before]

/-- The depth of the analysis is that of the constants in front, and wraps. -/
theorem depth_of_reaches_piling {count : Nat} {state : Nat × Nat}
    (path : Relation.ReflTransGen (Follows (piling count).code.instrs) (0, 0) state) :
    state.1 ≤ count ∧ state.2 = wrapSlots (2 * state.1) := by
  induction path with
  | refl => exact ⟨Nat.zero_le _, rfl⟩
  | tail _ step ih =>
      obtain ⟨_, depthEq⟩ := ih
      cases step with
      | next here enough falls =>
          rcases piling_cases here with ⟨before, rfl⟩ | ⟨_, rfl⟩
          · refine ⟨before, ?_⟩
            dsimp only at depthEq ⊢
            rw [depthEq, Nat.mul_add, Nat.mul_one, ← wrapSlots_add]
            rfl
          · cases falls
      | branch here enough target defined =>
          rcases piling_cases here with ⟨_, rfl⟩ | ⟨_, rfl⟩ <;> cases target

theorem balanced_piling (count : Nat) : Balanced (piling count).code.instrs where
  labels := by
    intro label first second firstAt
    rcases piling_cases firstAt with ⟨_, ⟨⟩⟩ | ⟨_, ⟨⟩⟩
  inside := by
    intro depth reached
    have below : (piling count).code.instrs.length ≤ count := (depth_of_reaches_piling reached).1
    rw [instrs_piling, List.length_append, List.length_replicate] at below
    exact absurd below (Nat.not_succ_le_self _)
  enough := by
    intro index depth instr _ here
    rcases piling_cases here with ⟨_, rfl⟩ | ⟨_, rfl⟩ <;> exact Nat.zero_le _
  target := by
    intro index depth instr label _ here target
    rcases piling_cases here with ⟨_, rfl⟩ | ⟨_, rfl⟩ <;> cases target
  agree := by
    intro index first second reachedFirst reachedSecond
    have firstEq : first = _ := (depth_of_reaches_piling reachedFirst).2
    have secondEq : second = _ := (depth_of_reaches_piling reachedSecond).2
    exact firstEq.trans secondEq.symm

theorem exists_accounted_piling (count : Nat) : ∃ depths, (piling count).Accounted depths := by
  have members : ∀ {property : Instr → Prop}, property (.const (.long 0)) → property (.ret none) →
      ∀ instr ∈ (piling count).code.instrs, property instr := by
    intro property constant leaves instr member
    obtain ⟨index, here⟩ := List.mem_iff_getElem?.mp member
    rcases piling_cases here with ⟨_, rfl⟩ | ⟨_, rfl⟩
    · exact constant
    · exact leaves
  have nonempty : (piling count).code.instrs ≠ [] := by
    simp [instrs_piling]
  obtain ⟨depths, analysed⟩ := (stackDepths_isOk_iff nonempty).mpr (balanced_piling count)
  obtain ⟨highest, required, greatest⟩ := isGreatest_requiredMaxStack nonempty analysed
  refine ⟨depths, nonempty, analysed, ⟨highest, required, le_of_mem_heights greatest.1⟩, ?_, ?_⟩
  · exact requiredMaxLocals_le_iff.mpr
      ⟨Nat.le_refl (piling count).argumentSlots, members (Nat.zero_le _) (Nat.zero_le _)⟩
  · have arguments :
        (piling count).firstArgSlot + (piling count).signature.totalSlots ≤ slotLimit := by
      change (!Access.isStatic ⟨9⟩).toNat + 0 ≤ slotLimit
      decide
    exact ⟨arguments, members (Nat.zero_le _) (Nat.zero_le _),
      members (Nat.zero_le _) (Nat.zero_le _)⟩

/-- The constants are pushed one after the other, as long as there is room for them. -/
theorem exists_piled (interpreter : Interpreter) (behaviour : Behaviour) (world : World)
    {count pushed : Nat} {first : Frame} (stands : first.Stands (piling count) 0 0)
    (present : pushed ≤ count) (room : 2 * pushed ≤ slotLimit)
    (budget : world.executed + pushed ≤ interpreter.limits.budget) :
    ∃ frame now, Relation.ReflTransGen (interpreter.AdvancesDeclared behaviour) (first, world)
        (frame, now) ∧
      frame.Stands (piling count) pushed (2 * pushed) ∧
      now.executed = world.executed + pushed := by
  induction pushed with
  | zero => exact ⟨first, world, .refl, stands, rfl⟩
  | succ pushed ih =>
      obtain ⟨frame, now, path, here, executed⟩ :=
        ih (Nat.le_of_succ_le present) (by omega) (by omega)
      have fetched := fetched_piling here present
      have slots : (Value.long 0).slots = 2 := rfl
      have declared : interpreter.GivesDeclared behaviour frame now := by
        constructor
        · intro op field value atField
          cases fetched.symm.trans atField
        · intro ret result after returns
          rw [fetched] at returns
          cases returns
      have advances : interpreter.Advances behaviour (frame, now)
          (frame.behind (Value.cells (.long 0) ++ frame.stack), now.counted) :=
        (advances_const_iff fetched rfl).mpr
          ⟨by omega, by rw [here.depth_eq, here.body_eq, slots]; exact room, rfl⟩
      refine ⟨_, _, path.tail ⟨declared, advances⟩, ⟨here.body_eq, here.code_eq, here.labels_eq,
        congrArg (· + 1) here.pc_eq, here.paired.cells _, ?_⟩, ?_⟩
      · change (Value.cells (.long 0) ++ frame.stack).length = _
        rw [List.length_append, here.depth_eq, Value.length_cells, slots]
        omega
      · change now.executed + 1 = _
        rw [executed, Nat.add_assoc]

/-- A constant for which there is no room stops the execution. -/
theorem step_of_full {interpreter : Interpreter} {behaviour : Behaviour} {frame : Frame}
    {world : World} {number : Int64} (fetched : frame.code[frame.pc]? = some (.const (.long number)))
    (full : frame.body.maxStack < frame.stack.length + 2)
    (budget : world.executed < interpreter.limits.budget) :
    interpreter.step behaviour frame world =
        (.error (.stackOverflow frame.body.ref (frame.stack.length + 2) frame.body.maxStack),
          world.counted) ∧
      interpreter.answer? behaviour frame world = none := by
  have pushed : Frame.act { frame with pc := frame.pc + 1 } world.counted (.const (.long number)) =
      (.error (.stackOverflow frame.body.ref (frame.stack.length + 2) frame.body.maxStack),
        world.counted) := by
    have refused : Frame.push { frame with pc := frame.pc + 1 } (.long number) = .error
        (.stackOverflow frame.body.ref (frame.stack.length + 2) frame.body.maxStack) :=
      (Frame.push_eq _ _).trans (if_neg (Nat.not_le.mpr full))
    change ((Frame.push { frame with pc := frame.pc + 1 } (.long number)).map _, _) = _
    rw [refused]
    rfl
  constructor
  · rw [step_eq fetched, if_neg (by omega), pushed]
    rfl
  · rw [answer?, fetched, Option.bind_some, pushed]
    rfl

/-- The analysis does not see that a stack overflows, if its depths wrap on the way. -/
theorem not_always_keeps_depths :
    ¬ ∀ (interpreter : Interpreter) (behaviour : Behaviour) (body : Body)
      (depths : List (Option Nat)) (args : List Value) (world : World) (first : Frame),
      body.Accounted depths → Takes body args → Frame.enter body args = .ok first →
        ∀ frame now, Relation.ReflTransGen (interpreter.AdvancesDeclared behaviour)
            (first, world) (frame, now) →
          ∀ fault last, interpreter.step behaviour frame now = (.error fault, last) →
            fault.isBookkeeping = true →
            interpreter.answer? behaviour frame now = some (.error fault, last) := by
  intro keeps
  let interpreter : Interpreter := ⟨.empty, .standard⟩
  let behaviour : Behaviour := fun _ _ world => (.ok none, world)
  obtain ⟨depths, accounted⟩ := exists_accounted_piling 32768
  have takes : Takes (piling 32768) [] := rfl
  obtain ⟨first, entered, stands⟩ := exists_entered accounted takes
  obtain ⟨frame, now, path, here, executed⟩ :=
    exists_piled interpreter behaviour (.fresh .standard .empty) stands
      (by decide : 32767 ≤ 32768) (by decide) (by decide)
  have full : frame.body.maxStack < frame.stack.length + 2 := by
    rw [here.body_eq, here.depth_eq]
    decide
  obtain ⟨failed, unanswered⟩ := @step_of_full interpreter behaviour frame now 0
    (fetched_piling here (by decide)) full (by rw [executed]; decide)
  have answered := keeps interpreter behaviour (piling 32768) depths [] _ _ accounted takes entered
    frame now path _ _ failed rfl
  cases unanswered.symm.trans answered

end Weaver.Machine.Interpreter
