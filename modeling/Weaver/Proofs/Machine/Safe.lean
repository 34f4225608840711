import Weaver.Proofs.Code.Labels
import Weaver.Proofs.Machine.Cells

/-!
# Frames that keep their books

The faults of bookkeeping are those that a body with sound bounds must never meet: a stack that runs
over or under, a wide value of which only the upper half is left, a missing label, a local outside
the declared ones, and control that runs off the end.  `Safe` is a postcondition for results that
rules these faults out and allows all others.  A frame that stands at a known depth, its wide values
in pairs of slots, is safe in all its operations as far as the depth and the bounds allow.
-/

namespace Weaver.Machine

/-- Whether a fault in a frame is one of bookkeeping. -/
def FrameFault.isBookkeeping : FrameFault → Bool
  | .splitWide _ | .localOutOfRange .. | .undefinedLabel _ | .fellOffEnd | .underflow => true
  | .unexpectedSlot _ | .wrongKind .. | .voidParameter | .localMismatch .. | .wideDuplicate
  | .operandMismatch | .voidField | .nullReceiver _ | .uncaughtThrow _ => false

/-- Whether a fault is one of bookkeeping. -/
def Fault.isBookkeeping : Fault → Bool
  | .frame _ cause => cause.isBookkeeping
  | .stackOverflow .. => true
  | _ => false

/-- The result has the property, or it is a fault other than one of bookkeeping. -/
def Safe {α : Type} (property : α → Prop) : Except Fault α → Prop
  | .ok value => property value
  | .error fault => fault.isBookkeeping = false

namespace Safe

variable {α β : Type} {property weaker : α → Prop} {result : Except Fault α}

@[simp]
theorem ok_iff {value : α} : Safe property (.ok value) ↔ property value := Iff.rfl

@[simp]
theorem pure_iff {value : α} : Safe property (pure value) ↔ property value := Iff.rfl

theorem mono (safe : Safe property result) (weaken : ∀ value, property value → weaker value) :
    Safe weaker result := by
  cases result with
  | error fault => exact safe
  | ok value => exact weaken value safe

/-- What follows a safe result is safe if it is so for every value that the result may be. -/
theorem bind_of_eq {next : α → Except Fault β} {later : β → Prop} (safe : Safe property result)
    (continuation : ∀ value, result = .ok value → property value → Safe later (next value)) :
    Safe later (result >>= next) := by
  cases result with
  | error fault => exact safe
  | ok value => exact continuation value rfl safe

theorem bind {next : α → Except Fault β} {later : β → Prop} (safe : Safe property result)
    (continuation : ∀ value, property value → Safe later (next value)) :
    Safe later (result >>= next) :=
  safe.bind_of_eq fun value _ => continuation value

theorem map {next : α → β} {later : β → Prop} (safe : Safe property result)
    (continuation : ∀ value, property value → later (next value)) :
    Safe later (result.map next) := by
  cases result with
  | error fault => exact safe
  | ok value => exact continuation value safe

end Safe

/-- Every upper half on the stack lies on a wide value. -/
def Paired : List Slot → Prop
  | [] => True
  | .top :: rest => (∃ value below, rest = .value value :: below ∧ value.slots = 2) ∧ Paired rest
  | .value _ :: rest | .empty :: rest => Paired rest

theorem Paired.tail {slot : Slot} {rest : List Slot} (paired : Paired (slot :: rest)) :
    Paired rest := by
  cases slot with
  | top => exact paired.2
  | value value => exact paired
  | empty => exact paired

theorem Paired.cells {rest : List Slot} (paired : Paired rest) (value : Value) :
    Paired (value.cells ++ rest) := by
  rcases value.slots_cases with narrow | wide
  · rw [Value.cells_of_narrow narrow]
    exact paired
  · rw [Value.cells, if_pos wide]
    exact ⟨⟨value, rest, rfl, wide⟩, paired⟩

namespace Frame

/-- The frame executes the body, stands at the position, and holds the number of slots. -/
structure Stands (body : Body) (pc depth : Nat) (frame : Frame) : Prop where
  body_eq : frame.body = body
  code_eq : frame.code = body.code.instrs.toArray
  labels_eq : body.code.labelPositions = .ok frame.labels
  pc_eq : frame.pc = pc
  paired : Paired frame.stack
  depth_eq : frame.stack.length = depth

variable {body : Body} {frame : Frame} {pc depth : Nat}

theorem Stands.withStack (stands : frame.Stands body pc depth) (stack : List Slot)
    (paired : Paired stack) : { frame with stack }.Stands body pc stack.length :=
  ⟨stands.body_eq, stands.code_eq, stands.labels_eq, stands.pc_eq, paired, rfl⟩

theorem Stands.withLocals (stands : frame.Stands body pc depth) (locals : Array Slot) :
    { frame with locals }.Stands body pc depth :=
  ⟨stands.body_eq, stands.code_eq, stands.labels_eq, stands.pc_eq, stands.paired, stands.depth_eq⟩

theorem Stands.withPc (stands : frame.Stands body pc depth) (position : Nat) :
    { frame with pc := position }.Stands body position depth :=
  ⟨stands.body_eq, stands.code_eq, stands.labels_eq, rfl, stands.paired, stands.depth_eq⟩

theorem Stands.push (stands : frame.Stands body pc depth) (value : Value)
    (room : depth + value.slots ≤ body.maxStack) :
    Safe (Stands body pc (depth + value.slots)) (frame.push value) := by
  have lengthEq : (value.cells ++ frame.stack).length = depth + value.slots := by
    rw [List.length_append, Value.length_cells, stands.depth_eq, Nat.add_comm]
  have pushed := stands.withStack (value.cells ++ frame.stack) (stands.paired.cells value)
  rw [lengthEq] at pushed
  rw [push_eq, stands.body_eq, stands.depth_eq, if_pos room]
  exact pushed

theorem Stands.pushResult (stands : frame.Stands body pc depth) {result : Option Value}
    {ret : Ty} (declared : result.map Value.kind = ret.kind?)
    (room : depth + ret.slots ≤ body.maxStack) :
    Safe (Stands body pc (depth + ret.slots)) (frame.pushResult result) := by
  have slotsEq : ret.slots = (result.map Value.slots).getD 0 := by
    rw [Ty.slots, ← declared]
    cases result <;> rfl
  rw [slotsEq] at room ⊢
  cases result with
  | none => exact stands
  | some value => exact stands.push value room

theorem Stands.popSlot (stands : frame.Stands body pc depth) (enough : 1 ≤ depth) :
    Safe (fun popped => popped.2.Stands body pc (depth - 1) ∧
      frame.stack = popped.1 :: popped.2.stack) frame.popSlot := by
  have paired := stands.paired
  have depthEq := stands.depth_eq
  unfold Frame.popSlot
  cases stackEq : frame.stack with
  | nil => simp [stackEq] at depthEq; omega
  | cons slot rest =>
      rw [stackEq] at paired depthEq
      have popped := stands.withStack rest paired.tail
      simp only [List.length_cons] at depthEq
      have below : depth - 1 = rest.length := by omega
      rw [below]
      exact ⟨popped, rfl⟩

/-- Popping a value takes as many slots as it has; no half of a wide value is left on its own. -/
theorem Stands.pop (stands : frame.Stands body pc depth) (enough : 1 ≤ depth) :
    Safe (fun popped => popped.2.Stands body pc (depth - popped.1.slots) ∧
      popped.1.slots ≤ depth) frame.pop := by
  have first := stands.popSlot enough
  have paired := stands.paired
  unfold Frame.pop
  cases popped : frame.popSlot with
  | error fault =>
      rw [popped] at first
      exact first
  | ok outcome =>
      rcases outcome with ⟨slot, below⟩
      rw [popped] at first
      obtain ⟨standsBelow, stackEq⟩ := first
      change frame.stack = slot :: below.stack at stackEq
      change below.Stands body pc (depth - 1) at standsBelow
      cases slot with
      | empty => rfl
      | value value =>
          by_cases narrow : value.slots = 1
          · simpa [narrow] using ⟨standsBelow, enough⟩
          · simp [narrow]
            rfl
      | top =>
          rw [stackEq] at paired
          obtain ⟨⟨value, rest, belowEq, wide⟩, pairedBelow⟩ := paired
          have deep := stands.depth_eq
          rw [stackEq, belowEq] at deep
          simp only [List.length_cons] at deep
          simp only [Frame.popSlot, belowEq, wide, if_true, Safe.ok_iff]
          have last := standsBelow.withStack rest (by
            rw [belowEq] at pairedBelow
            exact pairedBelow.tail)
          have lengthEq : depth - 2 = rest.length := by omega
          rw [lengthEq]
          exact ⟨last, by omega⟩

theorem Stands.popKind (stands : frame.Stands body pc depth) (kind : Kind)
    (enough : kind.slots ≤ depth) :
    Safe (fun popped => popped.1.kind = kind ∧ popped.2.Stands body pc (depth - kind.slots))
      (frame.popKind kind) := by
  rw [popKind_eq_bind]
  apply (stands.pop (Nat.le_trans kind.slots_pos enough)).bind
  rintro popped ⟨below, _⟩
  by_cases same : popped.1.kind = kind
  · subst same
    rw [if_pos rfl]
    exact ⟨rfl, below⟩
  · rw [if_neg same]
    rfl

theorem Stands.popInt (stands : frame.Stands body pc depth) (enough : 1 ≤ depth) :
    Safe (fun popped => popped.2.Stands body pc (depth - 1)) frame.popInt := by
  rw [popInt_eq_bind]
  apply (stands.popKind .int enough).bind
  rintro ⟨value, under⟩ ⟨kindEq, below⟩
  cases value with
  | int value => exact below
  | _ => cases kindEq

theorem Stands.popTypes (stands : frame.Stands body pc depth) (types : List Ty)
    (popped : List Value) (enough : (types.map Ty.slots).sum ≤ depth) :
    Safe (fun outcome => outcome.2.Stands body pc (depth - (types.map Ty.slots).sum))
      (frame.popTypes types popped) := by
  induction types generalizing frame depth popped with
  | nil => exact stands
  | cons type rest ih =>
      rw [List.map_cons, List.sum_cons] at enough ⊢
      rw [popTypes_cons]
      cases kindEq : type.kind? with
      | none => rfl
      | some kind =>
          have slotsEq : type.slots = kind.slots := by simp [Ty.slots, kindEq]
          apply (stands.popKind kind (by omega)).bind
          rintro top ⟨_, below⟩
          have later := ih below (top.1 :: popped) (by omega)
          rw [Nat.sub_sub, ← slotsEq] at later
          exact later

theorem Stands.popArgs (stands : frame.Stands body pc depth) (method : MethodRef)
    (hasReceiver : Bool) (enough : method.signature.totalSlots + hasReceiver.toNat ≤ depth) :
    Safe (fun outcome => outcome.2.Stands body pc
      (depth - (method.signature.totalSlots + hasReceiver.toNat)))
      (frame.popArgs method hasReceiver) := by
  have totalEq : (method.signature.params.reverse.map Ty.slots).sum =
      method.signature.totalSlots := by
    rw [List.map_reverse, List.sum_reverse, Signature.totalSlots_eq_sum]
  rw [popArgs_eq_bind]
  apply (stands.popTypes method.signature.params.reverse [] (by omega)).bind
  intro popped below
  rw [totalEq] at below
  cases hasReceiver with
  | false => exact below
  | true =>
      have receiverFits : Kind.slots .reference ≤ depth - method.signature.totalSlots :=
        Nat.le_sub_of_add_le' enough
      apply (below.popKind .reference receiverFits).bind
      rintro receiver ⟨_, under⟩
      rw [Nat.sub_sub] at under
      exact under

theorem Stands.loadLocal (stands : frame.Stands body pc depth) {kind : Kind} {index : Nat}
    (inside : index + kind.slots ≤ body.maxLocals) :
    Safe (fun value => value.kind = kind) (frame.loadLocal kind index) := by
  have within : ¬ frame.body.maxLocals < index + kind.slots := by
    rw [stands.body_eq]
    omega
  simp only [Frame.loadLocal, checkLocal, within, if_false]
  split
  · rename_i value _
    by_cases same : value.kind = kind
    · simp [same]
    · simp [same]
      rfl
  · rfl

theorem Stands.storeLocal (stands : frame.Stands body pc depth) {value : Value} {index : Nat}
    (inside : index + value.slots ≤ body.maxLocals) :
    Safe (Stands body pc depth) (frame.storeLocal index value) := by
  rw [storeLocal_eq, stands.body_eq, if_pos inside]
  exact stands.withLocals _

theorem Stands.goto (stands : frame.Stands body pc depth) {label : Label}
    (defined : Instr.label label ∈ body.code.instrs) :
    Safe (fun next => ∃ position, Code.DefinedAt body.code.instrs label position ∧
      next.Stands body position depth) (frame.goto label) := by
  obtain ⟨position, there⟩ := Code.exists_definedAt defined
  have known := (Code.lookup_labelPositions stands.labels_eq label position).mpr there
  simp only [Frame.goto, known]
  exact ⟨position, there, stands.withPc position⟩

end Frame

end Weaver.Machine
