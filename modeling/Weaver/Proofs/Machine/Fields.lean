import Weaver.Proofs.Machine.Lifetime
import Weaver.Proofs.Machine.Stores

/-!
# The fields as a memory

A static field is kept under its class and its name, and a field of an instance is kept in the
instance under its name.  So the fields are a memory of cells: over the whole life of an interpreter
a read finds what was last written into its cell, and no write is noticed in another one.  The type
of a field is no part of its cell, nor is the class of a field of an instance, and a read does not
look at the kind of what it finds.
-/

namespace Weaver.Machine

/-- An access to a field that was carried out. -/
structure FieldAccess where
  op : FieldOp
  field : FieldRef
  /-- The instance whose field it is; static fields have none. -/
  receiver : Option Handle
  /-- The value that was written, or pushed. -/
  value : Value
  deriving DecidableEq

/-- Where the value of a field is kept. -/
inductive FieldCell where
  | ofClass (owner name : String)
  | ofInstance (handle : Handle) (name : String)
  deriving DecidableEq

namespace FieldAccess

/-- The cell that an access is about. -/
def cell (access : FieldAccess) : FieldCell :=
  match access.receiver with
  | none => .ofClass access.field.owner access.field.name
  | some handle => .ofInstance handle access.field.name

/-- Two accesses to one field: to the same owner, name and type, and of the same instance if it is
one of an instance. -/
def SameField (first second : FieldAccess) : Prop :=
  first.field = second.field ∧ first.receiver = second.receiver

instance (first second : FieldAccess) : Decidable (first.SameField second) :=
  inferInstanceAs (Decidable (_ ∧ _))

theorem SameField.cell_eq {first second : FieldAccess} (same : first.SameField second) :
    first.cell = second.cell := by
  obtain ⟨fieldEq, receiverEq⟩ := same
  rw [cell, cell, fieldEq, receiverEq]

end FieldAccess

/-- The last write into a cell, in accesses of which the latest comes first. -/
def lastWrite (cell : FieldCell) (accesses : List FieldAccess) : Option FieldAccess :=
  accesses.find? fun access => !access.op.isRead && decide (access.cell = cell)

/-- The last write to the field of an access, in accesses of which the latest comes first. -/
def lastWriteTo (field : FieldAccess) (accesses : List FieldAccess) : Option FieldAccess :=
  accesses.find? fun access => !access.op.isRead && decide (access.SameField field)

theorem lastWrite_cons (cell : FieldCell) (access : FieldAccess) (accesses : List FieldAccess) :
    lastWrite cell (access :: accesses) =
      if access.op.isRead = false ∧ access.cell = cell then some access
      else lastWrite cell accesses := by
  unfold lastWrite
  rw [List.find?_cons]
  by_cases here : access.op.isRead = false ∧ access.cell = cell
  · simp [here]
  · rw [if_neg here]
    cases reads : access.op.isRead with
    | true => simp
    | false =>
        have apart : access.cell ≠ cell := fun same => here ⟨reads, same⟩
        simp [apart]

/-- If the last write into the cell of a field is one to the field, then it is the last of these. -/
theorem lastWriteTo_eq_lastWrite {field : FieldAccess} {accesses : List FieldAccess}
    (only : ∀ write, lastWrite field.cell accesses = some write → write.SameField field) :
    lastWriteTo field accesses = lastWrite field.cell accesses := by
  induction accesses with
  | nil => rfl
  | cons access accesses ih =>
      rw [lastWrite_cons] at only ⊢
      unfold lastWriteTo
      rw [List.find?_cons]
      by_cases here : access.op.isRead = false ∧ access.cell = field.cell
      · rw [if_pos here] at only ⊢
        simp [here.1, only access rfl]
      · rw [if_neg here] at only ⊢
        have passed : (!access.op.isRead && decide (access.SameField field)) = false := by
          by_contra found
          simp only [Bool.not_eq_false, Bool.and_eq_true, Bool.not_eq_true', decide_eq_true_eq]
            at found
          exact here ⟨found.1, found.2.cell_eq⟩
        rw [passed]
        exact ih only

/-- What is found in a table with a value for a key. -/
theorem Fields.lookup_assign {κ : Type} [BEq κ] [LawfulBEq κ] (fields : Fields κ) (key other : κ)
    (value : Value) :
    (fields.assign key value).lookup other =
      if other == key then some value else fields.lookup other := by
  unfold assign
  rw [List.lookup_cons]
  cases same : other == key with
  | true => rfl
  | false =>
      rw [if_neg Bool.false_ne_true]
      dsimp only
      induction fields with
      | nil => rfl
      | cons entry rest ih =>
          rw [List.filter_cons, List.lookup_cons]
          by_cases dropped : entry.1 = key
          · simp [dropped, same, ih]
          · have kept : (entry.1 != key) = true := bne_iff_ne.mpr dropped
            rw [if_pos kept, List.lookup_cons, ih]

/-- The value in a field of an instance, if it was written. -/
def Heap.held? (heap : Heap) (handle : Handle) (name : String) : Option Value :=
  ((heap.get? handle).map HeapObject.fields).bind (·.lookup name)

/-- The value in a cell, if it was written. -/
def World.held? (world : World) : FieldCell → Option Value
  | .ofClass owner name => world.statics.lookup (owner, name)
  | .ofInstance handle name => world.heap.held? handle name

theorem World.held?_counted (world : World) (cell : FieldCell) :
    world.counted.held? cell = world.held? cell := by
  cases cell <;> rfl

namespace Heap

/-- The fields of all instances hold the same. -/
def SameFields (before after : Heap) : Prop :=
  ∀ handle name, after.held? handle name = before.held? handle name

theorem get?_put {heap : Heap} {handle : Handle} {old : HeapObject} (new : HeapObject)
    (held : heap.get? handle = some old) (other : Handle) :
    (heap.put handle new).get? other = if other = handle then some new else heap.get? other := by
  obtain ⟨inside, _⟩ := Array.getElem?_eq_some_iff.mp held
  unfold get? put
  by_cases same : other = handle
  · simp [same, inside]
  · have apart : handle.id ≠ other.id := by
      rintro idEq
      cases handle
      cases other
      cases idEq
      exact same rfl
    rw [if_neg same, Array.getElem?_setIfInBounds_ne apart]

theorem Fieldless.sameFields {before after : Heap} (step : Fieldless before after) :
    SameFields before after := by
  intro handle name
  cases step with
  | @alloc _ object value blank allocated =>
      unfold Heap.alloc at allocated
      split at allocated
      · cases allocated
      · split at allocated
        · cases allocated
        · cases allocated
          unfold held? get?
          rw [Array.getElem?_push]
          split
          · rename_i last
            simp [last, blank]
          · rfl
  | put new held =>
      unfold held?
      rw [get?_put _ held]
      split
      · rename_i same
        simp [same, held, HeapObject.fields]
      · rfl

theorem KeepsFields.sameFields {before after : Heap} (keeps : KeepsFields before after) :
    SameFields before after := by
  induction keeps with
  | refl => exact fun _ _ => rfl
  | tail _ step ih => exact fun handle name => (step.sameFields handle name).trans (ih handle name)

end Heap

theorem World.KeepsFields.held?_eq {before after : World} (keeps : before.KeepsFields after)
    (cell : FieldCell) : after.held? cell = before.held? cell := by
  cases cell with
  | ofClass owner name => exact congrArg _ keeps.statics_eq
  | ofInstance handle name => exact keeps.heap.sameFields handle name

namespace Frame

/-- The value on top of the stack. -/
def top? (frame : Frame) : Option Value := frame.pop.toOption.map Prod.fst

/-- The instance to which the stack refers, before an access. -/
def receiver? (frame : Frame) : FieldOp → Option Handle
  | .getStatic | .putStatic => none
  | .getField => frame.top?.bind Value.handle?
  | .putField => (frame.pop.toOption.bind fun popped => popped.2.top?).bind Value.handle?

/-- The access to a field that a frame carries out, unless it fails.  A read leaves its value on top
of the stack, and a write finds it there. -/
def accessed? (frame : Frame) (world : World) (op : FieldOp) (field : FieldRef) :
    Option FieldAccess := do
  let next ← (frame.access world op field).1.toOption.bind Action.frame?
  let value ← (if op.isRead then next else frame).top?
  return ⟨op, field, frame.receiver? op, value⟩

/-- What an access to a field of a kind does: a read finds the value of its cell or the zero value of
the kind, changes nothing and pushes the value in place of the instance; a write writes a value of
the kind into its cell. -/
structure Performs (frame : Frame) (world : World) (kind : Kind) (access : FieldAccess)
    (outcome : Except Fault Action × World) : Prop where
  read : access.op.isRead = true →
    access.value = (world.held? access.cell).getD (.zero kind) ∧ outcome.2 = world ∧
      ∃ next, outcome.1 = .ok (.proceed next) ∧
        next.stack.length + (Instr.field access.op access.field).effect.pops =
          frame.stack.length + access.value.slots
  written : access.op.isRead = false → access.value.kind = kind ∧
    ∀ cell, outcome.2.held? cell =
      if cell = access.cell then some access.value else world.held? cell

variable {frame : Frame} {world : World} {op : FieldOp} {field : FieldRef} {access : FieldAccess}
  {kind : Kind} {value : Value}

theorem top?_eq_of_stack {rest : List Slot} (stackEq : frame.stack = value.cells ++ rest) :
    frame.top? = some value := by
  rw [top?, pop_eq_ok_iff.mpr ⟨rest, stackEq, rfl⟩]
  rfl

theorem top?_of_push {next : Frame} (pushed : frame.push value = .ok next) :
    next.top? = some value ∧ next.stack.length = frame.stack.length + value.slots := by
  obtain ⟨_, rfl⟩ := push_eq_ok_iff.mp pushed
  refine ⟨top?_eq_of_stack rfl, ?_⟩
  simp [withStack, Value.length_cells, Nat.add_comm]

theorem pop_of_popKind {below : Frame} (popped : frame.popKind kind = .ok (value, below)) :
    frame.pop = .ok (value, below) := by
  obtain ⟨_, rest, stackEq, belowEq⟩ := popKind_eq_ok_iff.mp popped
  exact pop_eq_ok_iff.mpr ⟨rest, stackEq, belowEq⟩

theorem top?_of_popKind {below : Frame} (popped : frame.popKind kind = .ok (value, below)) :
    frame.top? = some value := by
  rw [top?, pop_of_popKind popped]
  rfl

theorem accessed?_of_error {fault : Fault} {after : World}
    (failed : frame.access world op field = (.error fault, after)) :
    frame.accessed? world op field = none := by
  rw [accessed?, failed]
  rfl

theorem accessed?_of_proceed {next : Frame} {after : World}
    (goesOn : frame.access world op field = (.ok (.proceed next), after))
    (top : (if op.isRead then next else frame).top? = some value) :
    frame.accessed? world op field = some ⟨op, field, frame.receiver? op, value⟩ := by
  rw [accessed?, goesOn]
  simp only [Except.toOption, Action.frame?, bind, Option.bind_some, top, pure]

/-- What comes of an access: it fails and changes nothing, or it is carried out. -/
def Settles (frame : Frame) (world : World) (op : FieldOp) (field : FieldRef) : Prop :=
  (frame.accessed? world op field = none ∧ (frame.access world op field).2 = world) ∨
    ∃ kind access, field.type.kind? = some kind ∧
      frame.accessed? world op field = some access ∧ access.op = op ∧ access.field = field ∧
      frame.Performs world kind access (frame.access world op field)

theorem settles_of_error {fault : Fault}
    (failed : frame.access world op field = (.error fault, world)) :
    frame.Settles world op field :=
  .inl ⟨accessed?_of_error failed, congrArg Prod.snd failed⟩

theorem settles_getStatic (kindEq : field.type.kind? = some kind) :
    frame.Settles world .getStatic field := by
  have accessEq : frame.access world .getStatic field =
      ((frame.readStatic world field kind).map .proceed, world) := by rw [access, kindEq]
  cases read : frame.readStatic world field kind with
  | error fault =>
      rw [read] at accessEq
      exact settles_of_error accessEq
  | ok next =>
      rw [read] at accessEq
      obtain ⟨top, length⟩ := top?_of_push read
      refine .inr ⟨kind, _, kindEq, accessed?_of_proceed accessEq top, rfl, rfl, ?_⟩
      rw [accessEq]
      exact ⟨fun _ => ⟨rfl, rfl, next, rfl, length⟩, fun writes => by cases writes⟩

theorem settles_putStatic (kindEq : field.type.kind? = some kind) :
    frame.Settles world .putStatic field := by
  have accessEq : frame.access world .putStatic field =
      proceedWith world (frame.writeStatic world field kind) := by rw [access, kindEq]
  cases written : frame.writeStatic world field kind with
  | error fault =>
      rw [written] at accessEq
      exact settles_of_error accessEq
  | ok next =>
      rw [written] at accessEq
      obtain ⟨value, popped, worldEq⟩ := writeStatic_eq_ok_iff.mp written
      obtain ⟨valueKind, _⟩ := popKind_eq_ok_iff.mp popped
      refine .inr ⟨kind, _, kindEq, accessed?_of_proceed accessEq (top?_of_popKind popped), rfl, rfl,
        ?_⟩
      rw [accessEq]
      refine ⟨(fun reads => by cases reads), fun _ => ⟨valueKind, fun cell => ?_⟩⟩
      change next.2.held? cell = if cell = .ofClass field.owner field.name then _ else _
      rw [worldEq]
      cases cell with
      | ofClass owner name => simp [World.held?, Fields.lookup_assign]
      | ofInstance handle name => simp [World.held?]

theorem settles_getField (kindEq : field.type.kind? = some kind) :
    frame.Settles world .getField field := by
  have accessEq : frame.access world .getField field =
      ((frame.readField world field kind).map .proceed, world) := by rw [access, kindEq]
  cases read : frame.readField world field kind with
  | error fault =>
      rw [read] at accessEq
      exact settles_of_error accessEq
  | ok next =>
      rw [read] at accessEq
      obtain ⟨handle, below, className, fields, popped, held, pushed⟩ :=
        readField_eq_ok_iff.mp read
      obtain ⟨top, length⟩ := top?_of_push pushed
      obtain ⟨_, rest, stackEq, belowEq⟩ := popKind_eq_ok_iff.mp popped
      have receiverEq : frame.receiver? .getField = some handle := by
        rw [receiver?, top?_of_popKind popped]
        rfl
      have known := accessed?_of_proceed accessEq top
      rw [receiverEq] at known
      refine .inr ⟨kind, _, kindEq, known, rfl, rfl, ?_⟩
      rw [accessEq]
      refine ⟨fun _ => ⟨?_, rfl, next, rfl, ?_⟩, fun writes => by cases writes⟩
      · simp [FieldAccess.cell, World.held?, Heap.held?, held, HeapObject.fields]
      · change next.stack.length + 1 = frame.stack.length + _
        have one : (Value.ref handle).cells.length = 1 := rfl
        rw [length, belowEq, stackEq, List.length_append, one]
        simp only [withStack]
        omega

theorem settles_putField (kindEq : field.type.kind? = some kind) :
    frame.Settles world .putField field := by
  have accessEq : frame.access world .putField field =
      proceedWith world (frame.writeField world field kind) := by rw [access, kindEq]
  cases written : frame.writeField world field kind with
  | error fault =>
      rw [written] at accessEq
      exact settles_of_error accessEq
  | ok next =>
      rw [written] at accessEq
      obtain ⟨value, middle, handle, className, fields, popped, under, held, worldEq⟩ :=
        writeField_eq_ok_iff.mp written
      obtain ⟨valueKind, _⟩ := popKind_eq_ok_iff.mp popped
      have receiverEq : frame.receiver? .putField = some handle := by
        rw [receiver?, pop_of_popKind popped]
        change middle.top?.bind Value.handle? = _
        rw [top?_of_popKind under]
        rfl
      have known := accessed?_of_proceed accessEq (top?_of_popKind popped)
      rw [receiverEq] at known
      refine .inr ⟨kind, _, kindEq, known, rfl, rfl, ?_⟩
      rw [accessEq]
      refine ⟨(fun reads => by cases reads), fun _ => ⟨valueKind, fun cell => ?_⟩⟩
      change next.2.held? cell = if cell = .ofInstance handle field.name then _ else _
      rw [worldEq]
      cases cell with
      | ofClass owner name => simp [World.held?]
      | ofInstance other name =>
          unfold World.held? Heap.held?
          dsimp only
          rw [Heap.get?_put _ held]
          by_cases same : other = handle
          · simp [same, held, HeapObject.fields, Fields.lookup_assign]
          · simp [same]

/-- An access fails and changes nothing, or it is carried out. -/
theorem settles (frame : Frame) (world : World) (op : FieldOp) (field : FieldRef) :
    frame.Settles world op field := by
  cases kindEq : field.type.kind? with
  | none =>
      have failed : frame.access world op field =
          (.error (frame.corrupt .voidField), world) := by rw [access, kindEq]
      exact settles_of_error failed
  | some kind =>
      cases op with
      | getStatic => exact settles_getStatic kindEq
      | putStatic => exact settles_putStatic kindEq
      | getField => exact settles_getField kindEq
      | putField => exact settles_putField kindEq

end Frame

namespace Session

variable {interpreter : Interpreter} {session : Session} {world : World} {limits : Limits}
  {access : FieldAccess}

/-- The access to a field that is carried out in the next move, if one is. -/
def access? (limits : Limits) (session : Session) : Option FieldAccess :=
  match session.effect? limits with
  | some (frame, .field op field) =>
      Frame.accessed? { frame with pc := frame.pc + 1 } session.world.counted op field
  | _ => none

/-- The accesses to fields that were carried out when moving on from the sessions. -/
def accesses (limits : Limits) (past : List Session) : List FieldAccess :=
  past.filterMap (access? limits)

/-- What a cell holds behind a move in which an access is carried out, if one is. -/
def heldBehind (held : Option Value) (cell : FieldCell) : Option FieldAccess → Option Value
  | none => held
  | some access =>
      if access.op.isRead = false ∧ access.cell = cell then some access.value else held

theorem heldBehind_access? (past : List Session) (cell : FieldCell) :
    heldBehind ((lastWrite cell (accesses limits past)).map FieldAccess.value) cell
        (session.access? limits) =
      (lastWrite cell (accesses limits (session :: past))).map FieldAccess.value := by
  unfold accesses
  cases accessed : session.access? limits with
  | none => rw [List.filterMap_cons_none accessed]; rfl
  | some access =>
      rw [List.filterMap_cons_some accessed, lastWrite_cons, heldBehind]
      split <;> rfl

/-- An access that is carried out is one of the instruction that takes effect. -/
theorem exists_of_access? (accessed : session.access? limits = some access) :
    ∃ frame kind, session.effect? limits = some (frame, .field access.op access.field) ∧
      access.field.type.kind? = some kind ∧
      Frame.Performs { frame with pc := frame.pc + 1 } session.world.counted kind access
        (session.outcome frame (.field access.op access.field)) := by
  unfold access? at accessed
  split at accessed
  · rename_i frame op field effect
    rcases Frame.settles { frame with pc := frame.pc + 1 } session.world.counted op field with
      ⟨failed, _⟩ | ⟨kind, found, kindEq, known, rfl, rfl, performs⟩
    · cases failed.symm.trans accessed
    · cases known.symm.trans accessed
      exact ⟨frame, kind, effect, kindEq, performs⟩
  · cases accessed

theorem kind_of_write (accessed : session.access? limits = some access)
    (writes : access.op.isRead = false) : access.field.type.kind? = some access.value.kind := by
  obtain ⟨_, kind, _, kindEq, performs⟩ := exists_of_access? accessed
  rw [kindEq, (performs.written writes).1]

/-- An instruction changes the fields as its access does, if it is one and does not fail. -/
theorem held?_outcome {frame : Frame} {instr : Instr}
    (effect : session.effect? limits = some (frame, instr)) (cell : FieldCell) :
    (session.outcome frame instr).2.held? cell =
      heldBehind (session.world.held? cell) cell (session.access? limits) := by
  by_cases accesses : ∃ op field, instr = .field op field
  · obtain ⟨op, field, rfl⟩ := accesses
    have accessEq : session.access? limits =
        Frame.accessed? { frame with pc := frame.pc + 1 } session.world.counted op field := by
      rw [access?, effect]
    rw [accessEq]
    rcases Frame.settles { frame with pc := frame.pc + 1 } session.world.counted op field with
      ⟨failed, worldEq⟩ | ⟨kind, access, _, known, rfl, rfl, performs⟩
    · rw [failed, outcome]
      exact (congrArg (World.held? · cell) worldEq).trans (World.held?_counted _ cell)
    · rw [known, heldBehind]
      cases reads : access.op.isRead with
      | true =>
          obtain ⟨_, worldEq, _⟩ := performs.read reads
          rw [if_neg nofun]
          exact (congrArg (World.held? · cell) worldEq).trans (World.held?_counted _ cell)
      | false =>
          have written := (performs.written reads).2 cell
          simp only [true_and, eq_comm (a := access.cell)]
          exact written
  · have unaccessed : session.access? limits = none := by
      rw [access?, effect]
      split
      · rename_i found
        cases found
        exact absurd ⟨_, _, rfl⟩ accesses
      · rfl
    have quiet : ∀ op field, instr = .field op field → op.isRead = true :=
      fun op field same => absurd ⟨op, field, same⟩ accesses
    rw [unaccessed]
    exact (Frame.keepsFields_act _ session.world.counted quiet).held?_eq cell

/-- A move changes the fields as the access does that is carried out in it, if one is. -/
theorem Turns.held?_eq (natives : interpreter.program.Touches Heap.SameFields)
    (turns : session.Turns interpreter world) (cell : FieldCell) :
    world.held? cell =
      heldBehind (session.world.held? cell) cell (session.access? interpreter.limits) := by
  have idly (idle : session.effect? interpreter.limits = none) :
      session.access? interpreter.limits = none := by rw [access?, idle]
  cases turns with
  | still idle | refused idle =>
      rw [idly idle]
      rfl
  | intrinsic idle known =>
      rw [idly idle]
      exact (Intrinsic.keepsFields_call? known).held?_eq cell
  | native args idle resolved =>
      rw [idly idle]
      cases cell with
      | ofClass owner name => rfl
      | ofInstance handle name =>
          exact natives.resolve resolved args ⟨session.world.heap, session.world.trace⟩ handle name
  | acted effect => exact held?_outcome effect cell
  | reported texts effect _ =>
      rw [← held?_outcome effect cell]
      exact (World.keepsFields_allocStrings _ texts).held?_eq cell

end Session

/-- What a read of a field of a kind finds, behind accesses of which the latest comes first. -/
structure FieldAccess.Finds (read : FieldAccess) (kind : Kind) (accesses : List FieldAccess) :
    Prop where
  /-- It finds what was last written into its cell, or the zero value of its kind. -/
  value_eq : read.value = ((lastWrite read.cell accesses).map value).getD (.zero kind)
  /-- What it finds is of its kind exactly if the last write into its cell was one of this kind. -/
  kind_iff : read.value.kind = kind ↔
    ∀ write, lastWrite read.cell accesses = some write → write.field.type.kind? = some kind
  /-- Unless the last write into its cell was one to another field, it finds what was last written to
  its field, or the zero value of its kind, and takes the slots of its type. -/
  typed : (∀ write, lastWrite read.cell accesses = some write → write.SameField read) →
    read.value = ((lastWriteTo read accesses).map value).getD (.zero kind) ∧
      read.value.kind = kind ∧ read.value.slots = read.field.type.slots

/-- Values in which all writes are of the declared kinds are found as they were written. -/
theorem FieldAccess.finds_of_value {read : FieldAccess} {kind : Kind}
    {accesses : List FieldAccess} (kindEq : read.field.type.kind? = some kind)
    (written : ∀ write ∈ accesses, write.op.isRead = false →
      write.field.type.kind? = some write.value.kind)
    (value_eq : read.value = ((lastWrite read.cell accesses).map value).getD (.zero kind)) :
    read.Finds kind accesses := by
  have kind_iff : read.value.kind = kind ↔
      ∀ write, lastWrite read.cell accesses = some write →
        write.field.type.kind? = some kind := by
    cases last : lastWrite read.cell accesses with
    | none =>
        rw [last] at value_eq
        simp [value_eq]
    | some write =>
        rw [last] at value_eq
        have writes : write.op.isRead = false := by
          have found := List.find?_some last
          simp only [Bool.and_eq_true, Bool.not_eq_true'] at found
          exact found.1
        have declared := written write (List.mem_of_find?_eq_some last) writes
        simp [value_eq, declared]
  refine ⟨value_eq, kind_iff, fun only => ?_⟩
  have sameKind : read.value.kind = kind := by
    refine kind_iff.mpr fun write last => ?_
    rw [(only write last).1, kindEq]
  refine ⟨?_, sameKind, ?_⟩
  · rw [lastWriteTo_eq_lastWrite only]
    exact value_eq
  · rw [Value.slots, sameKind, Ty.slots, kindEq]
    rfl

namespace Interpreter

variable {interpreter : Interpreter} {past : List Session} {now : Session}

/-- At every moment the cells hold what was last written into them. -/
theorem Lives.held?_eq (natives : interpreter.program.Touches Heap.SameFields)
    (lives : interpreter.Lives Heap.SameFields past now) (cell : FieldCell) :
    now.world.held? cell =
      (lastWrite cell (Session.accesses interpreter.limits past)).map FieldAccess.value := by
  induction lives with
  | created log => cases cell <;> rfl
  | moved _ moves ih =>
      rw [(Session.turns_of_moves moves).held?_eq natives cell, ih]
      exact Session.heldBehind_access? _ cell
  | executed _ _ _ _ ih | invoked _ _ _ _ ih => exact ih
  | prepared _ _ touched _ ih =>
      rw [← ih]
      cases cell with
      | ofClass owner name => rfl
      | ofInstance handle name => exact touched handle name

/-- Fields are a memory of cells, one for each class and name of static fields and one for each
instance and name of its fields.  Let the native methods of a program and its host leave the fields
of instances alone.  Then in the life of an interpreter, through whatever calls and frames, a write
is one of a value of the declared kind, and a read pushes what was last written into its cell, or the
zero value of its kind, in place of the instance.  This is a value of the declared kind exactly if the
last write into the cell was one of this kind; and if that was one to the same field, of the same
owner, name and type, or if there was none, then the read finds the last write to the field and
takes the slots that were declared. -/
theorem access_of_lives (natives : interpreter.program.Touches Heap.SameFields)
    (lives : interpreter.Lives Heap.SameFields past now) {access : FieldAccess}
    (accessed : now.access? interpreter.limits = some access) :
    ∃ frame kind, now.effect? interpreter.limits = some (frame, .field access.op access.field) ∧
      access.field.type.kind? = some kind ∧
      (access.op.isRead = true →
        access.Finds kind (Session.accesses interpreter.limits past) ∧
          ∃ next, (now.outcome frame (.field access.op access.field)).1 = .ok (.proceed next) ∧
            next.stack.length + (Instr.field access.op access.field).effect.pops =
              frame.stack.length + access.value.slots) ∧
      (access.op.isRead = false → access.value.kind = kind) := by
  obtain ⟨frame, kind, effect, kindEq, performs⟩ := Session.exists_of_access? accessed
  refine ⟨frame, kind, effect, kindEq, fun reads => ?_, fun writes => (performs.written writes).1⟩
  obtain ⟨value_eq, _, next, goesOn, length⟩ := performs.read reads
  rw [World.held?_counted, lives.held?_eq natives] at value_eq
  refine ⟨FieldAccess.finds_of_value kindEq ?_ value_eq, next, goesOn, length⟩
  intro write member writes
  obtain ⟨session, _, written⟩ := List.mem_filterMap.mp member
  exact Session.kind_of_write written writes

/-- The static field of ints, or of longs, with a certain class and name. -/
def counter (type : Ty) : FieldRef := ⟨"a/B", "x", type⟩

/-- A method that writes a field of longs, reads it, and then reads the one of ints. -/
def rereading : Body :=
  { Body.ofNames "a/B" "m" ⟨[], .int⟩ ⟨9⟩ with
    code := .ofList
      [.const (.long 5), .field .putStatic (counter .long), .field .getStatic (counter .long), .pop,
        .pop, .field .getStatic (counter .int), .ret (some .int)]
    maxStack := 2 }

/-- An interpreter without a program. -/
def programless : Interpreter := ⟨.empty, .standard⟩

/-- A session of this interpreter with the frame of the method, which has carried out all of the
instructions up to the present one. -/
def rereadingAt (pc : Nat) (stack : List Slot) (statics : Fields (String × String)) : Session :=
  { stage := .running ⟨rereading, rereading.code.instrs.toArray, [], pc, stack, #[]⟩
    waiting := []
    opened := 1
    world := { World.fresh .standard .empty with statics, executed := pc } }

/-- The static fields behind the write. -/
def afterWrite : Fields (String × String) := [(("a/B", "x"), .long 5)]

/-- The read of a field that finds the long. -/
def rereads (type : Ty) : FieldAccess := ⟨.getStatic, counter type, none, .long 5⟩

theorem touches_programless : programless.program.Touches Heap.SameFields := nofun

/-- The method comes to its first read, behind nothing but the write. -/
theorem lives_firstRead : ∃ past,
    programless.Lives Heap.SameFields past (rereadingAt 2 [] afterWrite) ∧
      Session.accesses programless.limits past =
        [⟨.putStatic, counter .long, none, .long 5⟩] := by
  have created : programless.Lives Heap.SameFields [] (.fresh .standard .empty) := .created .empty
  have executing := created.executed ⟨rfl, .ok none, rfl⟩ rereading []
  exact ⟨_, (((executing.moved rfl).moved rfl).moved rfl).moved rfl, rfl⟩

/-- The method comes to its second read, behind the write and the first read. -/
theorem lives_secondRead : ∃ past,
    programless.Lives Heap.SameFields past (rereadingAt 5 [] afterWrite) ∧
      Session.accesses programless.limits past =
        [rereads .long, ⟨.putStatic, counter .long, none, .long 5⟩] := by
  obtain ⟨past, lives, accessesEq⟩ := lives_firstRead
  refine ⟨_, ((lives.moved rfl).moved rfl).moved rfl, ?_⟩
  change rereads .long :: Session.accesses programless.limits past = _
  rw [accessesEq]

theorem access_of_lives_rereading : ∃ past,
    programless.program.Touches Heap.SameFields ∧
      programless.Lives Heap.SameFields past (rereadingAt 2 [] afterWrite) ∧
      (rereadingAt 2 [] afterWrite).access? programless.limits = some (rereads .long) ∧
      (rereads .long).Finds .long (Session.accesses programless.limits past) := by
  obtain ⟨past, lives, _⟩ := lives_firstRead
  have accessed : (rereadingAt 2 [] afterWrite).access? programless.limits = some (rereads .long) :=
    rfl
  obtain ⟨_, kind, _, kindEq, reads, _⟩ := access_of_lives touches_programless lives accessed
  cases kindEq
  exact ⟨past, touches_programless, lives, accessed, (reads rfl).1⟩

/-- Fields of one name and class and of other types are not told apart: a read of an int finds a long
that was never written to its field. -/
theorem not_always_typed :
    ¬ ∀ (interpreter : Interpreter) (past : List Session) (now : Session) (access : FieldAccess)
        (kind : Kind),
      interpreter.program.Touches Heap.SameFields →
      interpreter.Lives Heap.SameFields past now →
      now.access? interpreter.limits = some access → access.op.isRead = true →
      access.field.type.kind? = some kind →
      access.value = ((lastWriteTo access (Session.accesses interpreter.limits past)).map
        FieldAccess.value).getD (.zero kind) := by
  intro always
  obtain ⟨past, lives, accessesEq⟩ := lives_secondRead
  have found := always programless _ _ (rereads .int) .int touches_programless lives rfl rfl rfl
  rw [accessesEq] at found
  exact absurd found (by decide)

end Interpreter

end Weaver.Machine
