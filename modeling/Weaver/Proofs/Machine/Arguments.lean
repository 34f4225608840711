import Mathlib.Algebra.BigOperators.Group.List.Basic
import Weaver.Proofs.Machine.Cells

/-!
# Arguments in the locals

A method takes its receiver, if it has one, and a value of the kind of each parameter.  If the
declared locals cover them, entering the method succeeds and leaves the arguments in consecutive
slots, each at the end of those before it.
-/

namespace Weaver

/-- The kinds of the receiver and the parameters. -/
def Body.argumentKinds (body : Body) : List (Option Kind) :=
  (if body.isStatic then [] else [some .reference]) ++ body.signature.params.map Ty.kind?

theorem Signature.sum_parameterSlots (signature : Signature) (first : Nat) :
    ((signature.parameterSlots first).map fun load => load.2.slots).sum =
      signature.totalSlots := by
  rw [parameterSlots, totalSlots_eq_sum]
  induction signature.params generalizing first with
  | nil => rfl
  | cons type rest ih =>
      unfold layout
      cases kindEq : type.kind? with
      | none => simp [ih, Ty.slots, kindEq]
      | some kind => simp [ih, Ty.slots, kindEq]

/-- The layout of parameters that all have a kind has a slot for each. -/
theorem Signature.length_layout {types : List Ty} {kinds : List Kind} (first : Nat)
    (kindsEq : types.map Ty.kind? = kinds.map some) :
    (layout first types).length = kinds.length := by
  induction types generalizing kinds first with
  | nil =>
      cases kinds with
      | nil => rfl
      | cons => cases kindsEq
  | cons type rest ih =>
      cases kinds with
      | nil => cases kindsEq
      | cons kind kinds =>
          obtain ⟨kindEq, kindsEq⟩ := List.cons.inj kindsEq
          rw [layout, kindEq]
          exact congrArg Nat.succ (ih _ kindsEq)

namespace Machine

/-- The arguments are those that the method declares. -/
def Takes (body : Body) (args : List Value) : Prop :=
  args.map (fun value => some value.kind) = body.argumentKinds

instance (body : Body) (args : List Value) : Decidable (Takes body args) :=
  inferInstanceAs (Decidable (_ = _))

variable {body : Body} {args : List Value}

theorem length_loadArgs {signature : Signature} (first : Nat)
    (kindsEq : signature.params.map Ty.kind? = args.map fun value => some value.kind) :
    (Run.loadArgs signature first).length = args.length := by
  rw [Run.loadArgs, List.length_map, ← List.length_map (f := Value.kind)]
  apply Signature.length_layout
  rw [kindsEq, List.map_map]
  rfl

theorem length_argumentKinds (body : Body) :
    body.argumentKinds.length = body.signature.params.length + body.firstArgSlot := by
  unfold Body.argumentKinds Body.firstArgSlot
  cases body.isStatic <;> simp

theorem Takes.length_eq (takes : Takes body args) :
    args.length = body.signature.params.length + body.firstArgSlot := by
  rw [← length_argumentKinds, ← takes, List.length_map]

theorem map_slots_eq (types : List Ty) :
    types.map Ty.slots = (types.map Ty.kind?).map fun kind => (kind.map Kind.slots).getD 0 := by
  rw [List.map_map]
  rfl

theorem map_slots_of_kinds {kinds : List (Option Kind)} {values : List Value}
    (kindsEq : kinds = values.map fun value => some value.kind) :
    values.map Value.slots = kinds.map fun kind => (kind.map Kind.slots).getD 0 := by
  rw [kindsEq, List.map_map]
  rfl

theorem sum_slots_of_kinds {types : List Ty} {values : List Value}
    (kindsEq : types.map Ty.kind? = values.map fun value => some value.kind) :
    (values.map Value.slots).sum = (types.map Ty.slots).sum := by
  rw [map_slots_of_kinds kindsEq, ← map_slots_eq]

theorem Takes.sum_slots (takes : Takes body args) :
    (args.map Value.slots).sum = body.firstArgSlot + body.signature.totalSlots := by
  rw [map_slots_of_kinds takes.symm, Body.argumentKinds, List.map_append, List.sum_append,
    ← map_slots_eq]
  rw [Body.firstArgSlot, Signature.totalSlots_eq_sum]
  cases body.isStatic <;> rfl

/-- The parameter that a value is for takes the slots of the value. -/
theorem layout_cons {type : Ty} {value : Value} {first : Nat} {types : List Ty}
    (kindEq : type.kind? = some value.kind) (within : first + value.slots ≤ slotLimit) :
    Signature.layout first (type :: types) =
      (first, value.kind) :: Signature.layout (first + value.slots) types := by
  rw [Signature.layout, kindEq]
  dsimp only
  unfold Value.slots at within ⊢
  rw [addSlots_of_le within]

/-- The values lie in consecutive slots from the given one on. -/
def Holds (locals : Array Slot) : Nat → List Value → Prop
  | _, [] => True
  | index, value :: rest =>
      locals[index]? = some (.value value) ∧ Holds locals (index + value.slots) rest

namespace Frame

/-- Values that fit are stored one behind the other. -/
theorem storeAll_eq_ok (frame : Frame) (index : Nat) (args : List Value)
    (sizeEq : frame.locals.size = frame.body.maxLocals)
    (inside : index + (args.map Value.slots).sum ≤ frame.body.maxLocals) :
    ∃ locals, frame.storeAll index args = .ok (frame.withLocals locals) ∧
      locals.size = frame.locals.size ∧
      (∀ slot < index, locals[slot]? = frame.locals[slot]?) ∧ Holds locals index args := by
  induction args generalizing frame index with
  | nil => exact ⟨frame.locals, rfl, rfl, fun _ _ => rfl, trivial⟩
  | cons value rest ih =>
      simp only [List.map_cons, List.sum_cons] at inside
      have positive : 0 < value.slots := value.kind.slots_pos
      have stored : frame.storeLocal index value =
          .ok (frame.withLocals (writeSlots frame.locals index value)) := by
        rw [storeLocal_eq, if_pos (by omega)]
      obtain ⟨locals, storedAll, size, below, holds⟩ :=
        ih (frame.withLocals (writeSlots frame.locals index value)) (index + value.slots)
          (by simpa using sizeEq) (by simp only [withLocals_body]; omega)
      refine ⟨locals, ?_, by simpa using size, fun slot under => ?_, ?_, holds⟩
      · simp only [storeAll, stored]
        exact storedAll
      · rw [below slot (by omega)]
        exact getElem?_writeSlots_of_ne (.inl under)
      · rw [below index (by omega)]
        exact getElem?_writeSlots_self value (by omega)

theorem fits_of_storeAll {frame next : Frame} {index : Nat} {args : List Value}
    (stored : frame.storeAll index args = .ok next) (below : index ≤ frame.body.maxLocals) :
    index + (args.map Value.slots).sum ≤ frame.body.maxLocals := by
  induction args generalizing frame index with
  | nil => exact below
  | cons value rest ih =>
      rw [storeAll_cons] at stored
      obtain ⟨later, laterEq, storedLater⟩ := bind_eq_ok_iff.mp stored
      rw [storeLocal_eq] at laterEq
      split at laterEq
      · rename_i inside
        cases laterEq
        have fits := ih storedLater inside
        rw [List.map_cons, List.sum_cons, ← Nat.add_assoc]
        exact fits
      · cases laterEq

theorem fits_of_enter {frame : Frame} (entered : Frame.enter body args = .ok frame) :
    (args.map Value.slots).sum ≤ body.maxLocals := by
  unfold Frame.enter at entered
  dsimp only at entered
  split at entered
  · cases entered
  · split at entered
    · cases entered
    · rw [← Nat.zero_add (args.map Value.slots).sum]
      exact fits_of_storeAll entered (Nat.zero_le _)

theorem enter_eq_error {fault : Code.Fault} (takes : Takes body args)
    (refused : body.code.labelPositions = .error fault) :
    Frame.enter body args = .error (.labels fault) := by
  have counted : args.length = body.signature.params.length + body.firstArgSlot := takes.length_eq
  simp only [Frame.enter, counted, ne_eq, not_true_eq_false, if_false, refused]

/-- A method whose declared locals cover its arguments is entered with them in its locals. -/
theorem enter_eq_ok {labels : List (Label × Nat)} (takes : Takes body args)
    (collected : body.code.labelPositions = .ok labels)
    (inside : body.firstArgSlot + body.signature.totalSlots ≤ body.maxLocals) :
    ∃ locals, Frame.enter body args =
        .ok ⟨body, body.code.instrs.toArray, labels, 0, [], locals⟩ ∧
      locals.size = body.maxLocals ∧ Holds locals 0 args := by
  have counted : args.length = body.signature.params.length + body.firstArgSlot := takes.length_eq
  obtain ⟨locals, stored, size, _, holds⟩ := storeAll_eq_ok
    ⟨body, body.code.instrs.toArray, labels, 0, [], .replicate body.maxLocals .empty⟩ 0 args
    (by simp) (by rw [takes.sum_slots, Nat.zero_add]; exact inside)
  refine ⟨locals, ?_, by simpa using size, holds⟩
  simp only [Frame.enter, counted, ne_eq, not_true_eq_false, if_false, collected]
  exact stored

end Frame

end Machine

end Weaver
