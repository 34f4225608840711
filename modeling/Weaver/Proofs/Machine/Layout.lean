import Weaver.Proofs.Body.Bounds
import Weaver.Proofs.Code.Labels
import Weaver.Proofs.Machine.Memory
import Weaver.Proofs.Redirect.Emitted

/-!
# The layout of arguments

The slots of the arguments are counted for the declared locals, listed for the loads, filled when a
method is entered and, on the operand stack, emptied again when the next one is called.  All four
agree: the arguments fill the declared locals without a gap, each in the slot that is listed for it,
and loads of the listed slots put on the stack what a call with the same parameters takes off it.
-/

namespace Weaver

/-- The slot and the kind of the receiver, if there is one, and of every parameter. -/
def Body.argumentLayout (body : Body) : List (Nat × Kind) :=
  (if body.isStatic then [] else [(0, .reference)]) ++ body.parameterSlots

namespace Machine

/-- Locals follow each other without a gap, from a slot on up to another one. -/
def Tiles : Nat → Nat → List (Nat × Kind) → Prop
  | first, last, [] => first = last
  | first, last, (slot, kind) :: rest => slot = first ∧ Tiles (first + kind.slots) last rest

/-- The cells that a value takes in the locals, the lower one first. -/
def Value.block (value : Value) : List Slot := value.cells.reverse

/-- The loads of locals. -/
def loadsOf (locals : List (Nat × Kind)) : List Instr :=
  locals.map fun (slot, kind) => .load kind slot

variable {args values : List Value} {first : Nat}

@[simp]
theorem Value.length_block (value : Value) : value.block.length = value.slots := by
  rw [block, List.length_reverse, length_cells]

/-- The kinds of values and the slots where they are placed. -/
def kindsPlaced (first : Nat) (values : List Value) : List (Nat × Kind) :=
  (placed first values).map fun (slot, value) => (slot, value.kind)

@[simp]
theorem kindsPlaced_cons (first : Nat) (value : Value) (rest : List Value) :
    kindsPlaced first (value :: rest) =
      (first, value.kind) :: kindsPlaced (first + value.slots) rest := rfl

@[simp]
theorem length_kindsPlaced (first : Nat) (values : List Value) :
    (kindsPlaced first values).length = values.length := by
  induction values generalizing first with
  | nil => rfl
  | cons value rest ih => exact congrArg Nat.succ (ih _)

/-- Parameters are listed where values of their kinds are placed. -/
theorem layout_eq_kindsPlaced (first : Nat) {types : List Ty}
    (kindsEq : types.map Ty.kind? = values.map fun value => some value.kind)
    (narrow : first + (values.map Value.slots).sum ≤ slotLimit) :
    Signature.layout first types = kindsPlaced first values := by
  induction types generalizing first values with
  | nil =>
      cases values with
      | nil => rfl
      | cons => cases kindsEq
  | cons type types ih =>
      cases values with
      | nil => cases kindsEq
      | cons value values =>
          obtain ⟨kindEq, kindsEq⟩ := List.cons.inj kindsEq
          rw [List.map_cons, List.sum_cons] at narrow
          rw [layout_cons kindEq (by omega), kindsPlaced_cons, ih _ kindsEq (by omega)]

theorem tiles_kindsPlaced (first : Nat) (values : List Value) :
    Tiles first (first + (values.map Value.slots).sum) (kindsPlaced first values) := by
  induction values generalizing first with
  | nil => rfl
  | cons value rest ih =>
      rw [List.map_cons, List.sum_cons, ← Nat.add_assoc]
      exact ⟨rfl, ih (first + value.slots)⟩

theorem Tiles.bounds {last : Nat} {locals : List (Nat × Kind)} (tiles : Tiles first last locals) :
    first ≤ last ∧ ∀ entry ∈ locals, first ≤ entry.1 ∧ entry.1 + entry.2.slots ≤ last := by
  induction locals generalizing first with
  | nil => exact ⟨Nat.le_of_eq tiles, fun entry member => by cases member⟩
  | cons entry rest ih =>
      obtain ⟨here, later⟩ := tiles
      obtain ⟨below, inside⟩ := ih later
      refine ⟨by omega, fun other member => ?_⟩
      rcases List.mem_cons.mp member with rfl | member
      · omega
      · have := inside other member
        omega

/-- Locals that follow each other do not overlap: each ends before the later ones begin. -/
theorem Tiles.pairwise {last : Nat} {locals : List (Nat × Kind)}
    (tiles : Tiles first last locals) :
    locals.Pairwise fun early late => early.1 + early.2.slots ≤ late.1 := by
  induction locals generalizing first with
  | nil => exact .nil
  | cons entry rest ih =>
      obtain ⟨here, later⟩ := tiles
      refine .cons (fun other member => ?_) (ih later)
      have behind := (later.bounds.2 other member).1
      omega

/-- The value lies in the slot, and if it is wide it takes the slot above as well. -/
def LiesAt (locals : Array Slot) (slot : Nat) (value : Value) : Prop :=
  locals[slot]? = some (.value value) ∧ (value.slots = 2 → locals[slot + 1]? = some .top)

theorem liesAt_block (front rest : List Slot) (value : Value) :
    LiesAt (front ++ (value.block ++ rest)).toArray front.length value := by
  unfold LiesAt Value.block Value.cells
  rcases value.slots_cases with narrow | wide
  · simp [narrow]
  · simp [wide]

/-- Behind other cells, each of the values lies where it is placed. -/
theorem liesAt_of_blocks (front : List Slot) {index : Nat} {value : Value}
    (listed : values[index]? = some value) :
    ∃ slot, (kindsPlaced front.length values)[index]? = some (slot, value.kind) ∧
      LiesAt (front ++ values.flatMap Value.block).toArray slot value := by
  induction values generalizing front index with
  | nil => cases listed
  | cons held rest ih =>
      cases index with
      | zero =>
          cases listed
          exact ⟨front.length, rfl, liesAt_block front _ value⟩
      | succ index =>
          obtain ⟨slot, placedAt, lies⟩ := ih (front ++ held.block) listed
          rw [List.length_append, Value.length_block] at placedAt
          rw [List.append_assoc] at lies
          exact ⟨slot, placedAt, lies⟩

theorem holds_blocks (front : List Slot) (values : List Value) :
    Holds (front ++ values.flatMap Value.block).toArray front.length values := by
  induction values generalizing front with
  | nil => trivial
  | cons value rest ih =>
      have behind := ih (front ++ value.block)
      rw [List.length_append, Value.length_block, List.append_assoc] at behind
      exact ⟨(liesAt_block front _ value).1, behind⟩

/-- A value that is written into unused slots puts its cells there. -/
theorem writeSlots_blank (front rest : List Slot) (value : Value) :
    writeSlots (front ++ (List.replicate value.slots Slot.empty ++ rest)).toArray front.length
        value =
      (front ++ value.block ++ rest).toArray := by
  unfold writeSlots Value.block Value.cells
  rcases value.slots_cases with narrow | wide
  · simp [narrow]
  · simp [wide, List.replicate]

namespace Frame

variable {frame : Frame}

/-- Values that are stored into unused slots fill them with their cells. -/
theorem storeAll_blank (frame : Frame) (front : List Slot) (values : List Value)
    (blank : frame.locals =
      (front ++ List.replicate (values.map Value.slots).sum Slot.empty).toArray)
    (declared : frame.body.maxLocals = front.length + (values.map Value.slots).sum) :
    frame.storeAll front.length values =
      .ok (frame.withLocals (front ++ values.flatMap Value.block).toArray) := by
  induction values generalizing frame front with
  | nil =>
      rw [storeAll, List.flatMap_nil, withLocals]
      exact congrArg (fun locals => Except.ok { frame with locals }) blank
  | cons value rest ih =>
      rw [List.map_cons, List.sum_cons] at blank declared
      rw [← List.replicate_append_replicate] at blank
      rw [storeAll_cons, storeLocal_eq, if_pos (by omega), blank, writeSlots_blank]
      have later := ih (frame.withLocals
          (front ++ value.block ++ List.replicate (rest.map Value.slots).sum Slot.empty).toArray)
        (front ++ value.block) rfl
        (by rw [List.length_append, Value.length_block, withLocals_body]; omega)
      rw [List.length_append, Value.length_block] at later
      rw [List.flatMap_cons, ← List.append_assoc]
      exact later

/-- Instructions that are carried out one after the other, each of which goes on with the frame. -/
def Goes : List Instr → Frame × World → Frame × World → Prop
  | [], here, there => here = there
  | instr :: rest, here, there => ∃ next : Frame × World,
      here.1.act here.2 instr = (.ok (.proceed next.1), next.2) ∧ Goes rest next there

/-- Loads of the slots where values lie put the values on the stack, the first one lowest. -/
theorem goes_loads (frame : Frame) (world : World) (first : Nat) (values : List Value)
    (holds : Holds frame.locals first values)
    (inside : first + (values.map Value.slots).sum ≤ frame.body.maxLocals)
    (room : frame.stack.length + (values.map Value.slots).sum ≤ frame.body.maxStack) :
    Goes (loadsOf (kindsPlaced first values)) (frame, world)
      (frame.withStack (values.reverse.flatMap Value.cells ++ frame.stack), world) := by
  induction values generalizing frame first with
  | nil => rfl
  | cons value rest ih =>
      rw [List.map_cons, List.sum_cons] at inside room
      obtain ⟨here, later⟩ := holds
      have loaded : frame.loadLocal value.kind first = .ok value :=
        loadLocal_eq_ok_iff.mpr
          ⟨Nat.le_trans (Nat.add_le_add_left (Nat.le_add_right _ _) _) inside, rfl, here⟩
      have pushed : frame.push value = .ok (frame.withStack (value.cells ++ frame.stack)) :=
        push_eq_ok_iff.mpr
          ⟨Nat.le_trans (Nat.add_le_add_left (Nat.le_add_right _ _) _) room, rfl⟩
      refine ⟨(frame.withStack (value.cells ++ frame.stack), world), ?_, ?_⟩
      · simp [act, loaded, pushed, bind, Except.bind, Except.map]
      · have goes := ih (frame.withStack (value.cells ++ frame.stack)) (first + value.slots)
          later (by rw [Nat.add_assoc]; exact inside)
          (by
            change (value.cells ++ frame.stack).length + _ ≤ frame.body.maxStack
            rw [List.length_append, Value.length_cells]
            omega)
        rw [List.reverse_cons, List.flatMap_append, List.flatMap_singleton, List.append_assoc]
        exact goes

/-- The instructions put values on the stack that a call with the parameters takes off it again,
with nothing else changed, in any frame with these locals whose stack has room for them. -/
def HandsOver (frame : Frame) (loads : List Instr) (params : List Ty) (hasReceiver : Bool)
    (handed : List Value) : Prop :=
  ∀ (now : Frame) (world : World) (method : MethodRef),
    now.body = frame.body → now.locals = frame.locals →
    now.stack.length + (handed.map Value.slots).sum ≤ now.body.maxStack →
    method.signature.params = params →
    ∃ loaded, Goes loads (now, world) (loaded, world) ∧
      loaded.popArgs method hasReceiver = .ok (handed, now)

/-- Parameters are handed over by the loads of the slots where values of their kinds lie. -/
theorem handsOver_params {types : List Ty}
    (kindsEq : types.map Ty.kind? = values.map fun value => some value.kind)
    (holds : Holds frame.locals first values)
    (inside : first + (values.map Value.slots).sum ≤ frame.body.maxLocals) :
    frame.HandsOver (loadsOf (kindsPlaced first values)) types false values := by
  intro now world method sameBody sameLocals room sameParams
  refine ⟨_, goes_loads now world first values (sameLocals ▸ holds) (sameBody ▸ inside) room, ?_⟩
  exact popArgs_eq_ok (sameParams ▸ kindsEq) rfl

/-- A receiver and the parameters behind it are handed over by the loads of their slots. -/
theorem handsOver_receiver {types : List Ty} {receiver : Value}
    (kindEq : receiver.kind = .reference)
    (kindsEq : types.map Ty.kind? = values.map fun value => some value.kind)
    (holds : Holds frame.locals first (receiver :: values))
    (inside : first + ((receiver :: values).map Value.slots).sum ≤ frame.body.maxLocals) :
    frame.HandsOver (loadsOf (kindsPlaced first (receiver :: values))) types true
      (receiver :: values) := by
  intro now world method sameBody sameLocals room sameParams
  refine ⟨_, goes_loads now world first _ (sameLocals ▸ holds) (sameBody ▸ inside) room, ?_⟩
  apply popArgs_receiver_eq_ok (sameParams ▸ kindsEq) kindEq
  simp [withStack]

/-- The arguments of a frame are where all the loops that lay them out expect them. -/
structure Arranged (frame : Frame) (args : List Value) : Prop where
  /-- The locals are the cells of the arguments and nothing else. -/
  filled : frame.locals.toList = args.flatMap Value.block
  /-- There is a slot for each of the arguments. -/
  counted : frame.body.argumentLayout.length = args.length
  /-- Each argument lies in the slot that is listed for it, under its own kind. -/
  listed : ∀ (index : Nat) (value : Value), args[index]? = some value →
    ∃ slot, frame.body.argumentLayout[index]? = some (slot, value.kind) ∧
      LiesAt frame.locals slot value
  /-- The slots of the arguments follow each other and end with the declared locals. -/
  tiled : Tiles 0 frame.body.maxLocals frame.body.argumentLayout
  /-- The slots of different arguments are disjoint. -/
  apart : frame.body.argumentLayout.Pairwise fun early late =>
    early.1 + early.2.slots ≤ late.1
  /-- The loads of the parameters hand them over to a method with the same parameters. -/
  parameters : frame.HandsOver (Run.loadArgs frame.body.signature frame.body.firstArgSlot)
    frame.body.signature.params false (args.drop frame.body.firstArgSlot)
  /-- Behind a load of the receiver, they hand all arguments over to such a method with one. -/
  receiver : frame.HandsOver (loadsOf frame.body.argumentLayout) frame.body.signature.params
    (!frame.body.isStatic) args
  /-- The loads of a handler's parameters hand the receiver over as the first of them. -/
  handlers : frame.HandsOver (Run.loadArgs (Redirect.handlerSignature frame.body) 0)
    (Redirect.handlerSignature frame.body).params false args

end Frame

theorem parameterSlots_handlerSignature (body : Body) :
    (Redirect.handlerSignature body).parameterSlots 0 = body.argumentLayout := by
  unfold Signature.parameterSlots Redirect.handlerSignature Body.argumentLayout
    Body.parameterSlots Body.firstArgSlot
  cases body.isStatic <;> rfl

variable {body : Body}

/-- The arguments that a method takes are placed where its layout lists them. -/
theorem Takes.argumentLayout_eq (takes : Takes body args)
    (narrow : body.firstArgSlot + body.signature.totalSlots ≤ slotLimit) :
    body.argumentLayout = kindsPlaced 0 args := by
  rw [← parameterSlots_handlerSignature]
  apply layout_eq_kindsPlaced 0 takes.kinds_handlerSignature
  rw [takes.sum_slots, Nat.zero_add]
  exact narrow

/-- A method takes its parameters, behind a receiver if it is not static. -/
theorem Takes.cases (takes : Takes body args) :
    (body.isStatic = true ∧
      body.signature.params.map Ty.kind? = args.map fun value => some value.kind) ∨
    (body.isStatic = false ∧ ∃ receiver rest, args = receiver :: rest ∧
      receiver.kind = .reference ∧
      body.signature.params.map Ty.kind? = rest.map fun value => some value.kind) := by
  unfold Takes Body.argumentKinds at takes
  cases static : body.isStatic with
  | true =>
      rw [static] at takes
      exact .inl ⟨rfl, takes.symm⟩
  | false =>
      rw [static] at takes
      cases args with
      | nil => cases takes
      | cons receiver rest =>
          obtain ⟨kindEq, kindsEq⟩ := List.cons.inj takes
          exact .inr ⟨rfl, receiver, rest, rfl, Option.some.inj kindEq, kindsEq.symm⟩

/-- Behind the receiver, if there is one, a method takes its parameters. -/
theorem Takes.parameters (takes : Takes body args) :
    (body.signature.params.map Ty.kind? =
        (args.drop body.firstArgSlot).map fun value => some value.kind) ∧
      body.firstArgSlot + ((args.drop body.firstArgSlot).map Value.slots).sum =
        (args.map Value.slots).sum ∧
      ∀ {locals : Array Slot}, Holds locals 0 args →
        Holds locals body.firstArgSlot (args.drop body.firstArgSlot) := by
  unfold Body.firstArgSlot
  rcases takes.cases with ⟨static, kindsEq⟩ | ⟨receives, receiver, rest, rfl, kindEq, kindsEq⟩
  · rw [static]
    exact ⟨kindsEq, Nat.zero_add _, id⟩
  · have single : receiver.slots = 1 := Value.slots_of_reference kindEq
    rw [receives]
    refine ⟨kindsEq, ?_, fun holds => ?_⟩
    · rw [List.map_cons, List.sum_cons, single]
      rfl
    · have later := holds.2
      rw [single] at later
      exact later

namespace Frame

/-- A method whose declared locals are its arguments is entered with them filled. -/
theorem enter_eq_blocks {labels : List (Label × Nat)} (takes : Takes body args)
    (collected : body.code.labelPositions = .ok labels)
    (declared : body.maxLocals = (args.map Value.slots).sum) :
    Frame.enter body args = .ok ⟨body, body.code.instrs.toArray, labels, 0, [],
      (args.flatMap Value.block).toArray⟩ := by
  have stored := storeAll_blank
    ⟨body, body.code.instrs.toArray, labels, 0, [], .replicate body.maxLocals .empty⟩ [] args
    (by simp [declared]) (by simp [declared])
  simp only [Frame.enter, takes.length_eq, ne_eq, not_true_eq_false, if_false, collected]
  exact stored

/-- Every method whose declared locals are those of a new body, and whose labels are unique, can be
entered with arguments of the declared kinds, and they are then arranged as callers and callees
expect. -/
theorem enter_arranged
    (declared : body.maxLocals =
      (Body.ofNames body.owner body.name body.signature body.access).maxLocals)
    (narrow : body.firstArgSlot + body.signature.totalSlots ≤ slotLimit)
    (unique : Code.UniqueLabels body.code.instrs) (takes : Takes body args) :
    ∃ frame, Frame.enter body args = .ok frame ∧ frame.body = body ∧ frame.Arranged args := by
  obtain ⟨labels, collected⟩ := (Code.labelPositions_isOk_iff body.code).mpr unique
  have covered : body.maxLocals = (args.map Value.slots).sum := by
    rw [declared, takes.sum_slots]
    exact (body.argumentSlots_eq).trans (addSlots_of_le narrow)
  have layoutEq := takes.argumentLayout_eq narrow
  have tiled : Tiles 0 body.maxLocals body.argumentLayout := by
    rw [layoutEq, covered, ← Nat.zero_add (args.map Value.slots).sum]
    exact tiles_kindsPlaced 0 args
  have holds : Holds (args.flatMap Value.block).toArray 0 args := holds_blocks [] args
  have inside : 0 + (args.map Value.slots).sum ≤ body.maxLocals := by
    rw [Nat.zero_add, covered]
  refine ⟨_, enter_eq_blocks takes collected covered, rfl, ?_⟩
  constructor
  case filled => rfl
  case counted =>
    rw [layoutEq, length_kindsPlaced]
  case listed =>
    intro index value listed
    rw [layoutEq]
    exact liesAt_of_blocks [] listed
  case tiled => exact tiled
  case apart => exact tiled.pairwise
  case parameters =>
    obtain ⟨kindsEq, sumEq, behind⟩ := takes.parameters
    have listed := layout_eq_kindsPlaced body.firstArgSlot kindsEq
      (by rw [sumEq, takes.sum_slots]; exact narrow)
    change HandsOver _ (loadsOf (Signature.layout _ _)) _ _ _
    rw [listed]
    exact handsOver_params kindsEq (behind holds) (by rw [sumEq, covered])
  case receiver =>
    change HandsOver _ (loadsOf body.argumentLayout) _ (!body.isStatic) _
    rw [layoutEq]
    rcases takes.cases with ⟨static, kindsEq⟩ | ⟨receives, receiver, rest, rfl, kindEq, kindsEq⟩
    · rw [static]
      exact handsOver_params kindsEq holds inside
    · rw [receives]
      exact handsOver_receiver kindEq kindsEq holds inside
  case handlers =>
    change HandsOver _ (loadsOf ((Redirect.handlerSignature body).parameterSlots 0)) _ _ _
    rw [parameterSlots_handlerSignature, layoutEq]
    exact handsOver_params takes.kinds_handlerSignature holds inside

/-- An instance method with a wide parameter between narrow ones. -/
def mixing : Body := .ofNames "a.B" "mix" ⟨[.int, .long, .boolean], .void⟩ ⟨1⟩

/-- Its arguments fill five slots, and the code that calls it again loads all four of them. -/
theorem enter_arranged_mixing :
    ∃ frame, Frame.enter mixing [.ref ⟨4⟩, .int 6, .long 7, .int 1] = .ok frame ∧
      frame.locals.toList =
        [.value (.ref ⟨4⟩), .value (.int 6), .value (.long 7), .top, .value (.int 1)] ∧
      frame.HandsOver
        [.load .reference 0, .load .int 1, .load .long 2, .load .int 4]
        [.int, .long, .boolean] true [.ref ⟨4⟩, .int 6, .long 7, .int 1] := by
  have takes : Takes mixing [.ref ⟨4⟩, .int 6, .long 7, .int 1] := by decide
  obtain ⟨frame, entered, bodyEq, arranged⟩ :=
    enter_arranged rfl (by decide) ((Code.labelPositions_isOk_iff _).mp ⟨_, rfl⟩) takes
  have receiver := arranged.receiver
  rw [bodyEq] at receiver
  exact ⟨frame, entered, arranged.filled, receiver⟩

end Frame

end Machine

end Weaver
