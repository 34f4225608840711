import Mathlib.Algebra.BigOperators.Group.List.Basic
import Mathlib.Algebra.GroupWithZero.Nat
import Weaver.Machine.Step

/-!
# Values and their cells

A value takes one cell of the operand stack, or two with an upper half on top.  Pushing puts the
cells of a value on the stack and popping takes them off again; the statements here say exactly when
either succeeds, so that code can be executed on frames whose values are known.
-/

namespace Weaver

theorem Signature.totalSlots_eq_sum (signature : Signature) :
    signature.totalSlots = (signature.params.map Ty.slots).sum := by
  rw [totalSlots, List.sum_eq_foldr, List.foldr_map]

theorem Signature.totalSlots_replicate (count : Nat) (ty ret : Ty) :
    (Signature.mk (List.replicate count ty) ret).totalSlots = count * ty.slots := by
  rw [totalSlots_eq_sum, List.map_replicate, List.sum_replicate_nat]

namespace Machine

/-- A value comes of two results after each other exactly if both are values. -/
theorem bind_eq_ok_iff {α β : Type} {result : Except Fault α} {next : α → Except Fault β}
    {value : β} :
    result >>= next = .ok value ↔ ∃ first, result = .ok first ∧ next first = .ok value := by
  cases result <;> simp [bind, Except.bind]

/-- The cells that a value takes on the stack, the top one first. -/
def Value.cells (value : Value) : List Slot :=
  if value.slots = 2 then [.top, .value value] else [.value value]

theorem Value.slots_cases (value : Value) : value.slots = 1 ∨ value.slots = 2 := by
  cases value <;> simp [Value.slots, Value.kind, Kind.slots]

@[simp]
theorem Value.length_cells (value : Value) : value.cells.length = value.slots := by
  rcases value.slots_cases with narrow | wide
  · simp [cells, narrow]
  · simp [cells, wide]

theorem Value.cells_of_narrow {value : Value} (narrow : value.slots = 1) :
    value.cells = [.value value] := by
  simp [cells, narrow]

theorem Value.slots_of_reference {value : Value} (kindEq : value.kind = .reference) :
    value.slots = 1 := by
  rw [slots, kindEq]
  rfl

namespace Frame

variable {frame below : Frame} {value : Value}

/-- The frame with another stack. -/
def withStack (frame : Frame) (stack : List Slot) : Frame := { frame with stack }

@[simp]
theorem withStack_withStack (frame : Frame) (first second : List Slot) :
    (frame.withStack first).withStack second = frame.withStack second := rfl

/-- A push succeeds exactly if the declared stack has room, and then adds the cells of the value. -/
theorem push_eq (frame : Frame) (value : Value) :
    frame.push value =
      if frame.stack.length + value.slots ≤ frame.body.maxStack then
        .ok (frame.withStack (value.cells ++ frame.stack))
      else
        .error (.stackOverflow frame.body.ref (frame.stack.length + value.slots)
          frame.body.maxStack) := by
  unfold push
  by_cases room : frame.stack.length + value.slots ≤ frame.body.maxStack
  · simp [room, Nat.not_lt.mpr room, withStack, Value.cells]
  · simp [room, Nat.lt_of_not_le room]

theorem pop_eq_ok_iff :
    frame.pop = .ok (value, below) ↔
      ∃ rest, frame.stack = value.cells ++ rest ∧ below = frame.withStack rest := by
  constructor
  · intro popped
    unfold pop popSlot at popped
    cases stackEq : frame.stack with
    | nil => simp [stackEq] at popped
    | cons slot rest =>
        rw [stackEq] at popped
        cases slot with
        | empty => simp at popped
        | value held =>
            by_cases narrow : held.slots = 1
            · simp only [narrow, if_true, Except.ok.injEq, Prod.mk.injEq] at popped
              obtain ⟨rfl, rfl⟩ := popped
              exact ⟨rest, by simp [Value.cells_of_narrow narrow], rfl⟩
            · simp [narrow] at popped
        | top =>
            cases rest with
            | nil => simp at popped
            | cons lower rest =>
                cases lower with
                | value held =>
                    by_cases wide : held.slots = 2
                    · simp only [wide, if_true, Except.ok.injEq, Prod.mk.injEq] at popped
                      obtain ⟨rfl, rfl⟩ := popped
                      exact ⟨rest, by simp [Value.cells, wide], rfl⟩
                    · simp [wide] at popped
                | _ => simp at popped
  · rintro ⟨rest, stackEq, rfl⟩
    unfold pop popSlot
    rcases value.slots_cases with narrow | wide
    · simp [stackEq, Value.cells, narrow, withStack]
    · simp [stackEq, Value.cells, wide, withStack]

theorem popKind_eq_bind (frame : Frame) (kind : Kind) :
    frame.popKind kind = frame.pop >>= fun popped =>
      if popped.1.kind = kind then .ok popped
      else .error (frame.corrupt (.wrongKind kind popped.1)) := by
  unfold popKind
  cases frame.pop <;> rfl

theorem popKind_eq_ok_iff {kind : Kind} :
    frame.popKind kind = .ok (value, below) ↔
      value.kind = kind ∧ ∃ rest, frame.stack = value.cells ++ rest ∧
        below = frame.withStack rest := by
  rw [popKind_eq_bind, bind_eq_ok_iff, ← pop_eq_ok_iff]
  constructor
  · rintro ⟨⟨held, under⟩, popped, checked⟩
    split at checked
    · rename_i same
      cases checked
      exact ⟨same, popped⟩
    · cases checked
  · rintro ⟨same, popped⟩
    exact ⟨(value, below), popped, if_pos same⟩

theorem popInt_eq_bind (frame : Frame) :
    frame.popInt = frame.popKind .int >>= fun popped =>
      match popped.1 with
      | .int value => .ok (value, popped.2)
      | value => .error (frame.corrupt (.wrongKind .int value)) := by
  unfold popInt
  rcases frame.popKind .int with fault | ⟨value, below⟩
  · rfl
  · cases value <;> rfl

theorem popTypes_cons (frame : Frame) (type : Ty) (rest : List Ty) (popped : List Value) :
    frame.popTypes (type :: rest) popped =
      match type.kind? with
      | none => .error (frame.corrupt .voidParameter)
      | some kind => frame.popKind kind >>= fun top => top.2.popTypes rest (top.1 :: popped) := by
  rw [popTypes]
  cases type.kind? with
  | none => rfl
  | some kind =>
      dsimp only
      cases frame.popKind kind <;> rfl

theorem popArgs_eq_bind (frame : Frame) (method : MethodRef) (hasReceiver : Bool) :
    frame.popArgs method hasReceiver =
      frame.popTypes method.signature.params.reverse [] >>= fun popped =>
        if hasReceiver then
          popped.2.popKind .reference >>= fun receiver =>
            .ok (receiver.1 :: popped.1, receiver.2)
        else .ok popped := by
  unfold popArgs
  cases frame.popTypes method.signature.params.reverse [] with
  | error fault => rfl
  | ok popped =>
      cases hasReceiver with
      | false => rfl
      | true => cases receiver : popped.2.popKind .reference <;> simp [receiver, bind, Except.bind]

/-- A condition is tested on nothing, on an int, on a reference, or on two ints.  Only the first is
certain to hold. -/
theorem test_cases {motive : Cond → (Frame → Except Fault (Bool × Frame)) → Prop}
    (always : motive .always fun frame => .ok (true, frame))
    (onInt : ∀ cond, ∀ answer : Int32 → Bool, cond.pops = 1 → cond ≠ .always →
      motive cond fun frame => frame.popInt >>= fun top => .ok (answer top.1, top.2))
    (onReference : ∀ cond, ∀ answer : Value → Bool, cond.pops = 1 → cond ≠ .always →
      motive cond fun frame => frame.popKind .reference >>= fun top => .ok (answer top.1, top.2))
    (onInts : ∀ cond, ∀ answer : Int32 → Int32 → Bool, cond.pops = 2 → cond ≠ .always →
      motive cond fun frame => frame.popInt >>= fun top =>
        top.2.popInt >>= fun second => .ok (answer second.1 top.1, second.2))
    (cond : Cond) : motive cond fun frame => frame.test cond := by
  cases cond with
  | always => exact always
  | ifZero => exact onInt .ifZero (· == 0) rfl (by decide)
  | ifNonZero => exact onInt .ifNonZero (· != 0) rfl (by decide)
  | ifNegative => exact onInt .ifNegative (fun x => decide (x < 0)) rfl (by decide)
  | ifNull => exact onReference .ifNull Value.isNull rfl (by decide)
  | ifNonNull => exact onReference .ifNonNull (!·.isNull) rfl (by decide)
  | ifIntEqual => exact onInts .ifIntEqual (· == ·) rfl (by decide)
  | ifIntNotEqual => exact onInts .ifIntNotEqual (· != ·) rfl (by decide)
  | ifIntLess => exact onInts .ifIntLess (fun x y => decide (x < y)) rfl (by decide)

/-- The frame with other locals. -/
def withLocals (frame : Frame) (locals : Array Slot) : Frame := { frame with locals }

@[simp]
theorem withLocals_locals (frame : Frame) (locals : Array Slot) :
    (frame.withLocals locals).locals = locals := rfl

@[simp]
theorem withLocals_body (frame : Frame) (locals : Array Slot) :
    (frame.withLocals locals).body = frame.body := rfl

end Frame

/-- The locals with a value written, which takes the slot above as well if it is wide. -/
def writeSlots (locals : Array Slot) (index : Nat) (value : Value) : Array Slot :=
  if value.slots = 2 then
    (locals.setIfInBounds index (.value value)).setIfInBounds (index + 1) .top
  else locals.setIfInBounds index (.value value)

@[simp]
theorem size_writeSlots (locals : Array Slot) (index : Nat) (value : Value) :
    (writeSlots locals index value).size = locals.size := by
  unfold writeSlots
  split <;> simp

theorem getElem?_writeSlots_self {locals : Array Slot} {index : Nat} (value : Value)
    (inside : index < locals.size) :
    (writeSlots locals index value)[index]? = some (.value value) := by
  unfold writeSlots
  split <;> simp [inside]

theorem getElem?_writeSlots_of_ne {locals : Array Slot} {index other : Nat} {value : Value}
    (apart : other < index ∨ index + value.slots ≤ other) :
    (writeSlots locals index value)[other]? = locals[other]? := by
  have positive : 0 < value.slots := value.kind.slots_pos
  have first : index ≠ other := by omega
  unfold writeSlots
  split
  · rename_i wide
    have second : index + 1 ≠ other := by omega
    rw [Array.getElem?_setIfInBounds_ne second, Array.getElem?_setIfInBounds_ne first]
  · rw [Array.getElem?_setIfInBounds_ne first]

namespace Frame

variable {frame : Frame} {value : Value}

theorem storeAll_cons (frame : Frame) (index : Nat) (value : Value) (rest : List Value) :
    frame.storeAll index (value :: rest) =
      frame.storeLocal index value >>= fun next => next.storeAll (index + value.slots) rest := by
  rw [storeAll]
  cases frame.storeLocal index value <;> rfl

/-- A store succeeds exactly if the value fits into the declared locals. -/
theorem storeLocal_eq (frame : Frame) (index : Nat) (value : Value) :
    frame.storeLocal index value =
      if index + value.slots ≤ frame.body.maxLocals then
        .ok (frame.withLocals (writeSlots frame.locals index value))
      else .error (frame.corrupt (.localOutOfRange index frame.body.maxLocals)) := by
  unfold storeLocal checkLocal
  by_cases inside : index + value.slots ≤ frame.body.maxLocals
  · have within : ¬ frame.body.maxLocals < index + value.kind.slots := Nat.not_lt.mpr inside
    simp only [within, inside, if_true, if_false, writeSlots, withLocals]
    split <;> rfl
  · have outside : frame.body.maxLocals < index + value.kind.slots := Nat.lt_of_not_le inside
    simp [inside, outside]

/-- A load succeeds exactly if the declared locals hold a value of the kind there. -/
theorem loadLocal_eq_ok_iff {kind : Kind} {index : Nat} :
    frame.loadLocal kind index = .ok value ↔
      index + kind.slots ≤ frame.body.maxLocals ∧ value.kind = kind ∧
        frame.locals[index]? = some (.value value) := by
  unfold loadLocal checkLocal
  by_cases inside : index + kind.slots ≤ frame.body.maxLocals
  · have within : ¬ frame.body.maxLocals < index + kind.slots := Nat.not_lt.mpr inside
    simp only [within, inside, if_false, true_and]
    cases held : frame.locals[index]? with
    | none => simp
    | some slot =>
        cases slot with
        | value found =>
            by_cases same : found.kind = kind
            · simp only [Option.getD_some, same, if_true, Except.ok.injEq, Option.some.injEq,
                Slot.value.injEq]
              constructor
              · rintro rfl
                exact ⟨same, rfl⟩
              · rintro ⟨_, rfl⟩
                rfl
            · simp only [Option.getD_some, same, if_false, reduceCtorEq, Option.some.injEq,
                Slot.value.injEq, false_iff]
              rintro ⟨kindEq, rfl⟩
              exact same kindEq
        | top => simp
        | empty => simp
  · have outside : frame.body.maxLocals < index + kind.slots := Nat.lt_of_not_le inside
    simp [inside, outside]

theorem popInt_eq_ok {number : Int32} {rest : List Slot}
    (stackEq : frame.stack = .value (.int number) :: rest) :
    frame.popInt = .ok (number, frame.withStack rest) := by
  have popped : frame.popKind .int = .ok (.int number, frame.withStack rest) :=
    popKind_eq_ok_iff.mpr ⟨rfl, rest, stackEq, rfl⟩
  rw [popInt_eq_bind, popped]
  rfl

/-- Values whose cells lie on top, the first one on top of all, are popped together. -/
theorem popTypes_eq_ok {types : List Ty} {values popped : List Value} {rest : List Slot}
    (kindsEq : types.map Ty.kind? = values.map fun value => some value.kind)
    (stackEq : frame.stack = values.flatMap Value.cells ++ rest) :
    frame.popTypes types popped = .ok (values.reverse ++ popped, frame.withStack rest) := by
  induction types generalizing frame values popped with
  | nil =>
      cases values with
      | nil =>
          rw [List.flatMap_nil, List.nil_append] at stackEq
          rw [← stackEq]
          rfl
      | cons => cases kindsEq
  | cons type types ih =>
      cases values with
      | nil => cases kindsEq
      | cons value values =>
          obtain ⟨kindEq, kindsEq⟩ := List.cons.inj kindsEq
          rw [List.flatMap_cons, List.append_assoc] at stackEq
          have top : frame.popKind value.kind =
              .ok (value, frame.withStack (values.flatMap Value.cells ++ rest)) :=
            popKind_eq_ok_iff.mpr ⟨rfl, _, stackEq, rfl⟩
          rw [popTypes_cons, kindEq]
          simp only [top, bind, Except.bind]
          rw [ih kindsEq rfl]
          simp

/-- The arguments of a method without a receiver, the last one on top. -/
theorem popArgs_eq_ok {method : MethodRef} {args : List Value} {rest : List Slot}
    (kindsEq : method.signature.params.map Ty.kind? = args.map fun value => some value.kind)
    (stackEq : frame.stack = args.reverse.flatMap Value.cells ++ rest) :
    frame.popArgs method false = .ok (args, frame.withStack rest) := by
  have reversed : method.signature.params.reverse.map Ty.kind? =
      args.reverse.map fun value => some value.kind := by
    rw [List.map_reverse, List.map_reverse, kindsEq]
  rw [popArgs_eq_bind, popTypes_eq_ok reversed stackEq]
  simp [bind, Except.bind]

/-- The arguments of a method and its receiver below them. -/
theorem popArgs_receiver_eq_ok {method : MethodRef} {receiver : Value} {args : List Value}
    {rest : List Slot}
    (kindsEq : method.signature.params.map Ty.kind? = args.map fun value => some value.kind)
    (kindEq : receiver.kind = .reference)
    (stackEq : frame.stack = args.reverse.flatMap Value.cells ++ receiver.cells ++ rest) :
    frame.popArgs method true = .ok (receiver :: args, frame.withStack rest) := by
  have reversed : method.signature.params.reverse.map Ty.kind? =
      args.reverse.map fun value => some value.kind := by
    rw [List.map_reverse, List.map_reverse, kindsEq]
  rw [List.append_assoc] at stackEq
  have under : (frame.withStack (receiver.cells ++ rest)).popKind .reference =
      .ok (receiver, frame.withStack rest) :=
    popKind_eq_ok_iff.mpr ⟨kindEq, rest, rfl, rfl⟩
  rw [popArgs_eq_bind, popTypes_eq_ok reversed stackEq]
  simp [bind, Except.bind, under]

/-- Values that were popped took the slots of their types off the stack. -/
theorem stack_of_popTypes {types : List Ty} {popped : List Value} {outcome : List Value × Frame}
    (poppedEq : frame.popTypes types popped = .ok outcome) :
    outcome.2 = frame.withStack (frame.stack.drop (types.map Ty.slots).sum) := by
  induction types generalizing frame popped with
  | nil =>
      cases poppedEq
      rfl
  | cons type types ih =>
      rw [popTypes_cons] at poppedEq
      cases kindEq : type.kind? with
      | none =>
          rw [kindEq] at poppedEq
          cases poppedEq
      | some kind =>
          rw [kindEq] at poppedEq
          obtain ⟨top, topEq, laterEq⟩ := bind_eq_ok_iff.mp poppedEq
          obtain ⟨sameKind, rest, stackEq, below⟩ := popKind_eq_ok_iff.mp topEq
          have slotsEq : type.slots = top.1.cells.length := by
            rw [Value.length_cells, Value.slots, sameKind, Ty.slots, kindEq]
            rfl
          rw [ih laterEq, below, List.map_cons, List.sum_cons, stackEq, slotsEq,
            ← List.drop_drop, List.drop_left]
          rfl

/-- The arguments that were popped took the slots of the parameters off the stack. -/
theorem stack_of_popArgs {method : MethodRef} {outcome : List Value × Frame}
    (poppedEq : frame.popArgs method false = .ok outcome) :
    outcome.2 = frame.withStack (frame.stack.drop method.signature.totalSlots) := by
  rw [popArgs_eq_bind] at poppedEq
  obtain ⟨inner, innerEq, sameEq⟩ := bind_eq_ok_iff.mp poppedEq
  cases sameEq
  rw [stack_of_popTypes innerEq, List.map_reverse, List.sum_reverse, Signature.totalSlots_eq_sum]

end Frame

end Machine

end Weaver
