import Weaver.Proofs.Machine.Depth
import Weaver.Proofs.Machine.Straight

/-!
# What executions write into the locals

Only stores write into the locals, and no step lets the stack grow beyond what the body declares.  So
what a load of an argument finds is decided by the last store before it that took the first slot of
the argument: the argument itself, if there was none, and else a value of the right kind only if that
store was one of this kind to this very slot.
-/

namespace Weaver.Machine

namespace Frame

/-- The stack of the frame is no higher than its body declares. -/
def Within (frame : Frame) : Prop := frame.stack.length ≤ frame.body.maxStack

/-- What an operation leaves that does not write into the locals: the locals as they were, and a stack
within the declared bound if it was within it. -/
structure Keeps (frame next : Frame) : Prop where
  locals_eq : next.locals = frame.locals
  within : frame.Within → next.Within

variable {frame next last : Frame} {world after : World} {instr : Instr}

namespace Keeps

theorem refl (frame : Frame) : frame.Keeps frame := ⟨rfl, id⟩

theorem trans (first : frame.Keeps next) (second : next.Keeps last) : frame.Keeps last :=
  ⟨second.locals_eq.trans first.locals_eq, fun within => second.within (first.within within)⟩

theorem of_append {top rest : List Slot} (stackEq : frame.stack = top ++ rest) :
    frame.Keeps (frame.withStack rest) := by
  refine ⟨rfl, fun within => ?_⟩
  have below : rest.length ≤ frame.stack.length := by simp [stackEq]
  exact below.trans within

theorem of_push {value : Value} (pushed : frame.push value = .ok next) : frame.Keeps next := by
  obtain ⟨room, rfl⟩ := push_eq_ok_iff.mp pushed
  refine ⟨rfl, fun _ => ?_⟩
  change (value.cells ++ frame.stack).length ≤ frame.body.maxStack
  rw [List.length_append, Value.length_cells]
  omega

theorem of_pushResult {result : Option Value} (pushed : frame.pushResult result = .ok next) :
    frame.Keeps next := by
  cases result with
  | none =>
      cases pushed
      exact refl _
  | some value => exact of_push pushed

theorem of_popKind {kind : Kind} {top : Value × Frame} (popped : frame.popKind kind = .ok top) :
    frame.Keeps top.2 := by
  obtain ⟨_, rest, stackEq, below⟩ := popKind_eq_ok_iff.mp popped
  rw [below]
  exact of_append stackEq

theorem of_popInt {top : Int32 × Frame} (popped : frame.popInt = .ok top) :
    frame.Keeps top.2 := by
  rw [popInt_eq_bind] at popped
  obtain ⟨⟨value, below⟩, belowEq, taken⟩ := bind_eq_ok_iff.mp popped
  cases value with
  | int number =>
      cases taken
      exact of_popKind belowEq
  | _ => cases taken

theorem of_popArgs {method : MethodRef} {hasReceiver : Bool} {outcome : List Value × Frame}
    (popped : frame.popArgs method hasReceiver = .ok outcome) : frame.Keeps outcome.2 := by
  rw [popArgs_eq_bind] at popped
  obtain ⟨inner, innerEq, later⟩ := bind_eq_ok_iff.mp popped
  have taken : frame.Keeps inner.2 := by
    rw [stack_of_popTypes innerEq]
    exact of_append (List.take_append_drop _ _).symm
  cases hasReceiver with
  | false =>
      cases later
      exact taken
  | true =>
      obtain ⟨receiver, receiverEq, rest⟩ := bind_eq_ok_iff.mp later
      cases rest
      exact taken.trans (of_popKind receiverEq)

theorem of_test {cond : Cond} {tested : Bool × Frame} (outcome : frame.test cond = .ok tested) :
    frame.Keeps tested.2 := by
  revert outcome
  refine test_cases (motive := fun _ test => test frame = .ok tested → frame.Keeps tested.2)
    ?_ ?_ ?_ ?_ cond
  · rintro ⟨⟩
    exact refl _
  · intro _ answer _ _ outcome
    obtain ⟨top, topEq, rest⟩ := bind_eq_ok_iff.mp outcome
    cases rest
    exact of_popInt topEq
  · intro _ answer _ _ outcome
    obtain ⟨top, topEq, rest⟩ := bind_eq_ok_iff.mp outcome
    cases rest
    exact of_popKind topEq
  · intro _ answer _ _ outcome
    obtain ⟨top, topEq, rest⟩ := bind_eq_ok_iff.mp outcome
    obtain ⟨second, secondEq, last⟩ := bind_eq_ok_iff.mp rest
    cases last
    exact (of_popInt topEq).trans (of_popInt secondEq)

theorem of_calculate {op : ArithOp} {kind : Kind} (outcome : frame.calculate op kind = .ok next) :
    frame.Keeps next := by
  obtain ⟨⟨y, first⟩, firstEq, later⟩ := bind_eq_ok_iff.mp outcome
  obtain ⟨⟨x, second⟩, secondEq, last⟩ := bind_eq_ok_iff.mp later
  dsimp only at last
  split at last
  · exact ((of_popKind firstEq).trans (of_popKind secondEq)).trans (of_push last)
  · cases last

theorem of_duplicate (outcome : frame.duplicate = .ok next) : frame.Keeps next := by
  unfold duplicate at outcome
  split at outcome
  · split at outcome
    · exact of_push outcome
    · cases outcome
  · cases outcome

theorem of_popSlot {top : Slot × Frame} (popped : frame.popSlot = .ok top) :
    frame.Keeps top.2 := by
  unfold popSlot at popped
  split at popped
  · cases popped
  · rename_i slot rest stackEq
    cases popped
    have onTop : frame.stack = [slot] ++ rest := stackEq
    exact of_append onTop

theorem of_cast {heap : Heap} {className : String} (outcome : frame.cast heap className = .ok next) :
    frame.Keeps next := by
  obtain ⟨⟨value, below⟩, belowEq, later⟩ := bind_eq_ok_iff.mp outcome
  obtain ⟨_, _, last⟩ := bind_eq_ok_iff.mp later
  exact (of_popKind belowEq).trans (of_push last)

theorem of_readField {field : FieldRef} {kind : Kind}
    (outcome : frame.readField world field kind = .ok next) : frame.Keeps next := by
  obtain ⟨⟨receiver, below⟩, belowEq, later⟩ := bind_eq_ok_iff.mp outcome
  obtain ⟨⟨_, _, fields⟩, _, last⟩ := bind_eq_ok_iff.mp later
  exact (of_popKind belowEq).trans (of_push last)

theorem of_writeStatic {field : FieldRef} {kind : Kind} {written : Frame × World}
    (outcome : frame.writeStatic world field kind = .ok written) : frame.Keeps written.1 := by
  obtain ⟨⟨value, below⟩, belowEq, last⟩ := bind_eq_ok_iff.mp outcome
  cases last
  exact of_popKind belowEq

theorem of_writeField {field : FieldRef} {kind : Kind} {written : Frame × World}
    (outcome : frame.writeField world field kind = .ok written) : frame.Keeps written.1 := by
  obtain ⟨⟨value, first⟩, firstEq, later⟩ := bind_eq_ok_iff.mp outcome
  obtain ⟨⟨receiver, second⟩, secondEq, rest⟩ := bind_eq_ok_iff.mp later
  obtain ⟨⟨_, _, _⟩, _, last⟩ := bind_eq_ok_iff.mp rest
  cases last
  exact (of_popKind firstEq).trans (of_popKind secondEq)

end Keeps

end Frame

/-- The frame that goes on after an action, at once or when its call returns. -/
def Action.frame? : Action → Option Frame
  | .proceed frame | .call frame _ _ | .guarded frame _ _ => some frame
  | .leave _ => none

namespace Frame

variable {frame next : Frame} {world after : World} {instr : Instr} {action : Action}

/-- An action that proceeds keeps what the making of its frame keeps. -/
theorem keeps_of_proceeds {outcome : Except Fault Frame}
    (acted : (outcome.map Action.proceed, world) = (.ok action, after))
    (keeps : ∀ {made}, outcome = .ok made → frame.Keeps made)
    (goesOn : action.frame? = some next) : frame.Keeps next := by
  cases outcome with
  | error fault => cases acted
  | ok made =>
      cases acted
      cases goesOn
      exact keeps rfl

theorem keeps_of_proceedWith {outcome : Except Fault (Frame × World)}
    (acted : proceedWith world outcome = (.ok action, after))
    (keeps : ∀ {made}, outcome = .ok made → frame.Keeps made.1)
    (goesOn : action.frame? = some next) : frame.Keeps next := by
  cases outcome with
  | error fault => cases acted
  | ok made =>
      cases acted
      cases goesOn
      exact keeps rfl

theorem keeps_of_pushNew {object : HeapObject}
    (acted : frame.pushNew world object = (.ok action, after))
    (goesOn : action.frame? = some next) : frame.Keeps next := by
  unfold pushNew at acted
  split at acted
  · cases acted
  · exact keeps_of_proceeds acted Keeps.of_push goesOn

theorem keeps_of_access {op : FieldOp} {field : FieldRef}
    (acted : frame.access world op field = (.ok action, after))
    (goesOn : action.frame? = some next) : frame.Keeps next := by
  unfold access at acted
  split at acted
  · cases acted
  · cases op with
    | getStatic => exact keeps_of_proceeds acted Keeps.of_push goesOn
    | putStatic => exact keeps_of_proceedWith acted Keeps.of_writeStatic goesOn
    | getField => exact keeps_of_proceeds acted Keeps.of_readField goesOn
    | putField => exact keeps_of_proceedWith acted Keeps.of_writeField goesOn

/-- Only stores write into the locals: any other instruction keeps them in the frame that goes on, or
waits for a call. -/
theorem keeps_of_act (unstored : ∀ kind slot, instr ≠ .store kind slot)
    (acted : frame.act world instr = (.ok action, after)) (goesOn : action.frame? = some next) :
    frame.Keeps next := by
  cases instr with
  | nop | label =>
      cases acted
      cases goesOn
      exact .refl _
  | const constant =>
      cases constant with
      | string text => exact keeps_of_pushNew acted goesOn
      | _ => exact keeps_of_proceeds acted Keeps.of_pushResult goesOn
  | load kind index =>
      refine keeps_of_proceeds acted (fun pushed => ?_) goesOn
      obtain ⟨value, _, later⟩ := bind_eq_ok_iff.mp pushed
      exact Keeps.of_push later
  | store kind slot => exact absurd rfl (unstored kind slot)
  | pop =>
      refine keeps_of_proceeds acted (fun popped => ?_) goesOn
      cases topEq : frame.popSlot with
      | error fault => simp [topEq, Except.map] at popped
      | ok top =>
          rw [topEq] at popped
          cases popped
          exact Keeps.of_popSlot topEq
  | dup => exact keeps_of_proceeds acted Keeps.of_duplicate goesOn
  | arith op kind => exact keeps_of_proceeds acted Keeps.of_calculate goesOn
  | new className => exact keeps_of_pushNew acted goesOn
  | checkCast className => exact keeps_of_proceeds acted Keeps.of_cast goesOn
  | field op field => exact keeps_of_access acted goesOn
  | call mode method =>
      obtain ⟨⟨args, below⟩, popped, asked⟩ := bind_eq_ok_iff.mp (Prod.mk.inj acted).1
      dsimp only at asked
      split at asked
      · cases asked
      · cases asked
        cases goesOn
        exact Keeps.of_popArgs popped
  | guardedCall call =>
      simp only [act] at acted
      cases popped : frame.popArgs call.target false with
      | error fault => simp [popped, Except.map] at acted
      | ok taken =>
          rw [popped] at acted
          cases acted
          cases goesOn
          exact Keeps.of_popArgs popped
  | jump cond target =>
      refine keeps_of_proceeds acted (fun moved => ?_) goesOn
      obtain ⟨⟨taken, below⟩, tested, later⟩ := bind_eq_ok_iff.mp moved
      have keeps : frame.Keeps below := Keeps.of_test tested
      cases taken with
      | false =>
          cases later
          exact keeps
      | true =>
          simp only [goto, if_true] at later
          split at later
          · cases later
            exact ⟨keeps.locals_eq, keeps.within⟩
          · cases later
  | ret kind? =>
      cases kind? with
      | none =>
          cases acted
          cases goesOn
      | some kind =>
          simp only [act] at acted
          cases popped : frame.popKind kind with
          | error fault => simp [popped, Except.map] at acted
          | ok taken =>
              rw [popped] at acted
              cases acted
              cases goesOn
  | throw =>
      obtain ⟨_, _, thrown⟩ := bind_eq_ok_iff.mp (Prod.mk.inj acted).1
      cases thrown

end Frame

namespace Interpreter

variable {interpreter : Interpreter} {behaviour : Behaviour} {frame next : Frame}
  {world after : World} {instr : Instr}

theorem keeps_of_resume {waiting : Frame} {answer : CallResult}
    (resumed : resume waiting answer = (.ok (.running next), after)) : waiting.Keeps next := by
  obtain ⟨result, _, pushed⟩ := (@resume_iff (next, after) waiting answer).mp resumed
  exact Frame.Keeps.of_pushResult pushed

/-- A step whose instruction is no store leaves the locals alone. -/
theorem Advances.keeps (step : interpreter.Advances behaviour (frame, world) (next, after))
    (fetched : frame.code[frame.pc]? = some instr)
    (unstored : ∀ kind slot, instr ≠ .store kind slot) : frame.Keeps next := by
  obtain ⟨_, finished⟩ := (advances_iff fetched).mp step
  have moved : frame.Keeps { frame with pc := frame.pc + 1 } := ⟨rfl, id⟩
  apply moved.trans
  rcases acted : Frame.act { frame with pc := frame.pc + 1 } world.counted instr with
    ⟨fault | action, last⟩
  · rw [acted] at finished
    cases finished
  · rw [acted] at finished
    have keeps (made : Frame) : action.frame? = some made → Frame.Keeps _ made :=
      Frame.keeps_of_act unstored acted
    cases action with
    | proceed made =>
        cases finished
        exact keeps next rfl
    | leave result => cases finished
    | call waiting method args => exact (keeps waiting rfl).trans (keeps_of_resume finished)
    | guarded waiting call args => exact (keeps waiting rfl).trans (keeps_of_resume finished)

end Interpreter

/-- Whether a store writes into a slot, a value or the upper half of one. -/
def occupies (slot : Nat) (store : Nat × Kind) : Bool :=
  store.1 ≤ slot && slot < store.1 + store.2.slots

/-- The last of the stores that occupies the slot, if any of them does, is one of the kind to this very
slot. -/
def Intact (slot : Nat) (kind : Kind) (stores : List (Nat × Kind)) : Prop :=
  ∀ store ∈ (stores.filter (occupies slot)).getLast?, store = (slot, kind)

instance (slot : Nat) (kind : Kind) (stores : List (Nat × Kind)) :
    Decidable (Intact slot kind stores) :=
  inferInstanceAs (Decidable (∀ store ∈ _, _))

variable {slot : Nat} {kind : Kind} {stores : List (Nat × Kind)} {store : Nat × Kind}

theorem intact_nil : Intact slot kind [] := by
  rintro store ⟨⟩

theorem intact_append_of_away (away : occupies slot store = false) :
    Intact slot kind (stores ++ [store]) ↔ Intact slot kind stores := by
  simp [Intact, List.filter_append, away]

theorem intact_append_of_occupies (here : occupies slot store = true) :
    Intact slot kind (stores ++ [store]) ↔ store = (slot, kind) := by
  simp [Intact, List.filter_append, here]

/-- Stores that occupy a slot only with values of its kind leave it intact. -/
theorem intact_of_forall
    (faithful : ∀ store ∈ stores, occupies slot store = true → store = (slot, kind)) :
    Intact slot kind stores := by
  intro store last
  obtain ⟨member, here⟩ := List.mem_filter.mp (List.mem_of_getLast? last)
  exact faithful store member here

/-- What a slot holds behind the writing of a value. -/
theorem getElem?_writeSlots {locals : Array Slot} {index : Nat} (value : Value)
    (inside : slot < locals.size) :
    (writeSlots locals index value)[slot]? =
      if slot = index then some (.value value)
      else if occupies slot (index, value.kind) then some .top else locals[slot]? := by
  by_cases here : slot = index
  · subst here
    rw [if_pos rfl, getElem?_writeSlots_self value inside]
  · rw [if_neg here]
    unfold occupies
    rcases value.slots_cases with narrow | wide
    · change value.kind.slots = 1 at narrow
      have apart : slot < index ∨ index + value.kind.slots ≤ slot := by omega
      have away : ¬ (index ≤ slot ∧ slot < index + value.kind.slots) := by omega
      rw [getElem?_writeSlots_of_ne apart]
      simp [away]
    · change value.kind.slots = 2 at wide
      by_cases upper : slot = index + 1
      · subst upper
        simp [writeSlots, Value.slots, wide, inside]
      · have apart : slot < index ∨ index + value.kind.slots ≤ slot := by omega
        have away : ¬ (index ≤ slot ∧ slot < index + value.kind.slots) := by omega
        rw [getElem?_writeSlots_of_ne apart]
        simp [away]

/-- The slot and the kind of the store that a frame executes next, if it is one. -/
def Frame.store? (frame : Frame) : Option (Nat × Kind) :=
  match frame.code[frame.pc]? with
  | some (.store kind slot) => some (slot, kind)
  | _ => none

theorem Frame.mem_of_store? {frame : Frame} {instrs : List Instr} (stores : frame.store? = some store)
    (codeEq : frame.code = instrs.toArray) : Instr.store store.2 store.1 ∈ instrs := by
  unfold Frame.store? at stores
  split at stores
  · rename_i kind slot fetched
    cases stores
    rw [codeEq] at fetched
    exact List.mem_of_getElem? (by simpa using fetched)
  · cases stores

namespace Interpreter

variable {interpreter : Interpreter} {behaviour : Behaviour} {first last : Frame}

/-- An execution that goes on from one frame to another and executes the given stores on its way.  Each
step is taken in a world of its own, and is given what its instruction declares. -/
inductive Stores (interpreter : Interpreter) (behaviour : Behaviour) :
    List (Nat × Kind) → Frame → Frame → Prop
  | start {frame} : Stores interpreter behaviour [] frame frame
  | step {stores first frame next world after}
      (earlier : Stores interpreter behaviour stores first frame)
      (advances : interpreter.AdvancesDeclared behaviour (frame, world) (next, after)) :
      Stores interpreter behaviour (stores ++ frame.store?.toList) first next

/-- A step writes the value of its store, if it is one, and nothing else, and keeps the stack within
the declared bound. -/
theorem Advances.writes {frame next : Frame} {world after : World}
    (step : interpreter.Advances behaviour (frame, world) (next, after)) :
    (frame.store? = none ∧ next.locals = frame.locals ∨
      ∃ value slot, frame.store? = some (slot, value.kind) ∧
        next.locals = writeSlots frame.locals slot value) ∧
      (frame.Within → next.Within) := by
  cases fetched : frame.code[frame.pc]? with
  | none =>
      have stuck : interpreter.step behaviour frame world = (.ok (.running next), after) := step
      simp [Interpreter.step, fetched] at stuck
  | some instr =>
      by_cases stores : ∃ kind slot, instr = .store kind slot
      · obtain ⟨kind, slot, rfl⟩ := stores
        obtain ⟨value, rest, rfl, stackEq, _, nextEq⟩ := Advances.of_store step fetched
        cases nextEq
        exact ⟨.inr ⟨value, slot, by rw [Frame.store?, fetched], rfl⟩,
          (Frame.Keeps.of_append stackEq).within⟩
      · have unstored : ∀ kind slot, instr ≠ .store kind slot :=
          fun kind slot same => stores ⟨kind, slot, same⟩
        have keeps := step.keeps fetched unstored
        refine ⟨.inl ⟨?_, keeps.locals_eq⟩, keeps.within⟩
        unfold Frame.store?
        split
        · rename_i kind slot other
          cases fetched.symm.trans other
          exact absurd rfl (unstored kind slot)
        · rfl

/-- An execution leaves in a slot a value of the kind that it held at first exactly if its stores leave
the slot intact. -/
theorem Stores.holds_iff (executed : interpreter.Stores behaviour stores first last)
    (held : ∃ value : Value, value.kind = kind ∧ first.locals[slot]? = some (.value value)) :
    last.locals.size = first.locals.size ∧
      ((∃ value : Value, value.kind = kind ∧ last.locals[slot]? = some (.value value)) ↔
        Intact slot kind stores) := by
  have inside : slot < first.locals.size := by
    obtain ⟨value, _, found⟩ := held
    exact (Array.getElem?_eq_some_iff.mp found).1
  induction executed with
  | start => exact ⟨rfl, iff_of_true held intact_nil⟩
  | step earlier advances ih =>
      obtain ⟨sizeEq, intactIff⟩ := ih held inside
      rcases (Advances.writes advances.2).1 with
        ⟨unstored, same⟩ | ⟨written, index, stored, changed⟩
      · rw [unstored, same, Option.toList_none, List.append_nil]
        exact ⟨sizeEq, intactIff⟩
      · rw [stored, changed, size_writeSlots, Option.toList_some]
        refine ⟨sizeEq, ?_⟩
        rw [getElem?_writeSlots written (sizeEq.symm ▸ inside)]
        by_cases here : slot = index
        · subst here
          have occupied : occupies slot (slot, written.kind) = true := by
            have positive := written.kind.slots_pos
            unfold occupies
            simp [positive]
          rw [if_pos rfl, intact_append_of_occupies occupied]
          simp
        · rw [if_neg here]
          cases occupied : occupies slot (index, written.kind) with
          | true =>
              rw [if_pos rfl, intact_append_of_occupies occupied]
              simp [Ne.symm here]
          | false =>
              rw [if_neg Bool.false_ne_true, intact_append_of_away occupied]
              exact intactIff

end Interpreter

end Weaver.Machine
