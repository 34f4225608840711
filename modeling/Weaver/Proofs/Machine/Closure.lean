import Weaver.Proofs.Machine.Handles

/-!
# Instructions in a closed world

A world is closed if its heap is and its static fields hold values that denote objects.  The values
that an instruction pushes come out of the frame or out of a field, or they refer to a new object or
to none at all.  So a frame whose values denote objects goes on as such a frame, the world stays
closed, and no cast meets a reference that dangles.
-/

namespace Weaver.Machine

open HeapObject Heap

/-- Whether a fault is that of a reference without an object. -/
def Fault.isDangling : Fault → Bool
  | .danglingReference _ => true
  | _ => false

/-- The result has the property, or it is a fault other than a dangling reference. -/
def Delivers {α : Type} (property : α → Prop) : Except Fault α → Prop
  | .ok value => property value
  | .error fault => fault.isDangling = false

namespace Delivers

variable {α β : Type} {property : α → Prop} {later : β → Prop} {result : Except Fault α}

theorem bind {next : α → Except Fault β} (delivers : Delivers property result)
    (continuation : ∀ value, property value → Delivers later (next value)) :
    Delivers later (result >>= next) := by
  cases result with
  | error fault => exact delivers
  | ok value => exact continuation value delivers

theorem map {next : α → β} (delivers : Delivers property result)
    (continuation : ∀ value, property value → later (next value)) :
    Delivers later (result.map next) := by
  cases result with
  | error fault => exact delivers
  | ok value => exact continuation value delivers

end Delivers

/-- All values of a frame, on its stack and in its locals, denote objects. -/
def Frame.Closed (heap : Heap) (frame : Frame) : Prop :=
  ∀ value, .value value ∈ frame.stack ∨ .value value ∈ frame.locals → heap.Denotes value

theorem mem_writeSlots {locals : Array Slot} {index : Nat} {value : Value} {slot : Slot}
    (member : slot ∈ writeSlots locals index value) :
    slot ∈ locals ∨ slot = .value value ∨ slot = .top := by
  unfold writeSlots at member
  split at member
  · rcases Array.mem_or_eq_of_mem_setIfInBounds member with inFirst | upper
    · exact (Array.mem_or_eq_of_mem_setIfInBounds inFirst).imp id .inl
    · exact .inr (.inr upper)
  · exact (Array.mem_or_eq_of_mem_setIfInBounds member).imp id .inl

theorem handle?_of_arith? {op : ArithOp} {x y value : Value} (made : arith? op x y = some value) :
    value.handle? = none := by
  unfold arith? at made
  split at made <;> cases made <;> rfl

namespace Frame

variable {heap after : Heap} {frame : Frame} {value : Value}

namespace Closed

theorem mono {related : HeapObject → HeapObject → Prop} (closed : frame.Closed heap)
    (across : heap.Across related after) : frame.Closed after :=
  fun value held => across.denotes (closed value held)

theorem withStack (closed : frame.Closed heap) {stack : List Slot}
    (known : ∀ value, .value value ∈ stack → heap.Denotes value) :
    (frame.withStack stack).Closed heap :=
  fun value held => held.elim (known value) fun inLocals => closed value (.inr inLocals)

theorem push (closed : frame.Closed heap) (denotes : heap.Denotes value) :
    Delivers (Closed heap) (frame.push value) := by
  rw [push_eq]
  split
  · refine closed.withStack fun other member => ?_
    rcases List.mem_append.mp member with top | below
    · have same : other = value := by
        unfold Value.cells at top
        split at top <;> simpa using top
      exact same ▸ denotes
    · exact closed other (.inl below)
  · rfl

theorem pushResult (closed : frame.Closed heap) {result : Option Value}
    (denotes : ∀ value ∈ result, heap.Denotes value) :
    Delivers (Closed heap) (frame.pushResult result) := by
  cases result with
  | none => exact closed
  | some value => exact closed.push (denotes value rfl)

/-- A slot that is popped holds a value of the frame, if it holds one. -/
theorem popSlot (closed : frame.Closed heap) :
    Delivers (fun top => (∀ value, top.1 = .value value → heap.Denotes value) ∧
      top.2.Closed heap) frame.popSlot := by
  unfold Frame.popSlot
  split
  · rfl
  · rename_i slot rest stackEq
    constructor
    · rintro value rfl
      exact closed value (.inl (stackEq ▸ List.mem_cons_self))
    · refine closed.withStack fun value member => closed value (.inl ?_)
      rw [stackEq]
      exact List.mem_cons_of_mem _ member

theorem pop (closed : frame.Closed heap) :
    Delivers (fun top => heap.Denotes top.1 ∧ top.2.Closed heap) frame.pop := by
  have top := closed.popSlot
  unfold Frame.pop
  split
  · rename_i fault failed
    rw [failed] at top
    exact top
  · rename_i below popped
    rw [popped] at top
    have under := top.2.popSlot
    split
    · rename_i fault failed
      rw [failed] at under
      exact under
    · rename_i slot rest poppedUnder
      rw [poppedUnder] at under
      split
      · split
        · exact ⟨under.1 _ rfl, under.2⟩
        · rfl
      · rfl
  · rename_i slot rest _ popped
    rw [popped] at top
    split
    · split
      · exact ⟨top.1 _ rfl, top.2⟩
      · rfl
    · rfl

theorem popKind (closed : frame.Closed heap) (kind : Kind) :
    Delivers (fun top => heap.Denotes top.1 ∧ top.2.Closed heap) (frame.popKind kind) := by
  rw [popKind_eq_bind]
  refine closed.pop.bind fun top delivered => ?_
  split
  · exact delivered
  · rfl

theorem popInt (closed : frame.Closed heap) :
    Delivers (fun top => top.2.Closed heap) frame.popInt := by
  rw [popInt_eq_bind]
  refine (closed.popKind .int).bind fun top delivered => ?_
  split
  · exact delivered.2
  · rfl

theorem popTypes (closed : frame.Closed heap) (types : List Ty) {popped : List Value}
    (known : ∀ value ∈ popped, heap.Denotes value) :
    Delivers (fun outcome => (∀ value ∈ outcome.1, heap.Denotes value) ∧ outcome.2.Closed heap)
      (frame.popTypes types popped) := by
  induction types generalizing frame popped with
  | nil => exact ⟨known, closed⟩
  | cons type rest ih =>
      rw [popTypes_cons]
      split
      · rfl
      · refine (closed.popKind _).bind fun top delivered => ih delivered.2 fun value member => ?_
        rcases List.mem_cons.mp member with rfl | older
        · exact delivered.1
        · exact known value older

theorem popArgs (closed : frame.Closed heap) (method : MethodRef) (hasReceiver : Bool) :
    Delivers (fun outcome => (∀ value ∈ outcome.1, heap.Denotes value) ∧ outcome.2.Closed heap)
      (frame.popArgs method hasReceiver) := by
  rw [popArgs_eq_bind]
  refine (closed.popTypes _ (List.forall_mem_nil _)).bind fun args delivered => ?_
  split
  · refine (delivered.2.popKind .reference).bind fun receiver under => ⟨?_, under.2⟩
    intro value member
    rcases List.mem_cons.mp member with rfl | later
    · exact under.1
    · exact delivered.1 value later
  · exact delivered

theorem checkLocal (frame : Frame) (kind : Kind) (index : Nat) :
    Delivers (fun _ => True) (frame.checkLocal kind index) := by
  unfold Frame.checkLocal
  split
  · rfl
  · trivial

theorem loadLocal (closed : frame.Closed heap) (kind : Kind) (index : Nat) :
    Delivers heap.Denotes (frame.loadLocal kind index) := by
  have checked := checkLocal frame kind index
  unfold Frame.loadLocal
  split
  · rename_i fault failed
    rw [failed] at checked
    exact checked
  · dsimp only
    split
    · rename_i held here
      split
      · refine closed held (.inr (Array.mem_of_getElem? (i := index) ?_))
        cases found : frame.locals[index]? with
        | none =>
            rw [found] at here
            cases here
        | some slot =>
            rw [found] at here
            exact congrArg some here
      · rfl
    · rfl

theorem storeLocal (closed : frame.Closed heap) (index : Nat) (denotes : heap.Denotes value) :
    Delivers (Closed heap) (frame.storeLocal index value) := by
  rw [storeLocal_eq]
  split
  · intro other held
    rcases held with inStack | inLocals
    · exact closed other (.inl inStack)
    · rcases mem_writeSlots inLocals with before | stored | upper
      · exact closed other (.inr before)
      · cases stored
        exact denotes
      · cases upper
  · rfl

theorem storeAll (closed : frame.Closed heap) (index : Nat) {values : List Value}
    (known : ∀ value ∈ values, heap.Denotes value) :
    Delivers (Closed heap) (frame.storeAll index values) := by
  induction values generalizing frame index with
  | nil => exact closed
  | cons value rest ih =>
      rw [storeAll_cons]
      exact (closed.storeLocal index (known value List.mem_cons_self)).bind fun next stored =>
        ih stored _ fun other member => known other (List.mem_cons_of_mem _ member)

theorem goto (closed : frame.Closed heap) (label : Label) :
    Delivers (Closed heap) (frame.goto label) := by
  unfold Frame.goto
  split
  · exact closed
  · rfl

theorem test (closed : frame.Closed heap) (cond : Cond) :
    Delivers (fun tested => tested.2.Closed heap) (frame.test cond) := by
  refine test_cases (motive := fun _ test =>
    Delivers (fun tested => tested.2.Closed heap) (test frame)) ?_ ?_ ?_ ?_ cond
  · exact closed
  · intro _ answer _ _
    exact closed.popInt.bind fun top below => below
  · intro _ answer _ _
    exact (closed.popKind .reference).bind fun top delivered => delivered.2
  · intro _ answer _ _
    exact closed.popInt.bind fun top below => below.popInt.bind fun second last => last

theorem calculate (closed : frame.Closed heap) (op : ArithOp) (kind : Kind) :
    Delivers (Closed heap) (frame.calculate op kind) := by
  refine (closed.popKind kind).bind fun y below => (below.2.popKind kind).bind fun x last => ?_
  dsimp only
  split
  · rename_i value made
    exact last.2.push (denotes_of_handle? (handle?_of_arith? made))
  · rfl

theorem duplicate (closed : frame.Closed heap) : Delivers (Closed heap) frame.duplicate := by
  unfold Frame.duplicate
  split
  · rename_i value top
    split
    · exact closed.push (closed value (.inl (List.mem_of_head? top)))
    · rfl
  · rfl

end Closed

/-- A method is entered with nothing in its frame but its arguments. -/
theorem closed_enter (body : Body) {args : List Value}
    (known : ∀ value ∈ args, heap.Denotes value) :
    Delivers (Closed heap) (Frame.enter body args) := by
  unfold Frame.enter
  dsimp only
  split
  · rfl
  · split
    · rfl
    · refine Closed.storeAll (fun value held => ?_) 0 known
      rcases held with inStack | inLocals
      · cases inStack
      · cases (Array.mem_replicate.mp inLocals).2

end Frame

theorem Heap.delivers_alloc (heap : Heap) (object : HeapObject) :
    Delivers (fun _ => True) (heap.alloc object) := by
  unfold alloc
  split
  · rfl
  · split
    · rfl
    · trivial

namespace World

/-- The heap and the static fields hold what denotes objects. -/
structure Closed (world : World) : Prop where
  heap : world.heap.Closed
  statics : ∀ entry ∈ world.statics, world.heap.Denotes entry.2

/-- What may come of an operation in a closed world: another closed world, where all objects are
there in a related state, and a result with a property there. -/
structure Leads {α : Type} (before : World) (related : HeapObject → HeapObject → Prop)
    (property : Heap → α → Prop) (outcome : Except Fault α × World) : Prop where
  closed : outcome.2.Closed
  across : before.heap.Across related outcome.2.heap
  delivers : Delivers (property outcome.2.heap) outcome.1

variable {α : Type} {world : World} {property : Heap → α → Prop} {result : Except Fault α}

theorem Closed.leads (closed : world.Closed) (delivers : Delivers (property world.heap) result) :
    world.Leads Persists property (result, world) :=
  ⟨closed, .refl Persists.refl _, delivers⟩

/-- A heap that was changed with its objects kept, in a world whose statics are as they were. -/
theorem Closed.withHeap (closed : world.Closed) {related : HeapObject → HeapObject → Prop}
    {heap : Heap} (heapClosed : heap.Closed) (across : world.heap.Across related heap) :
    Closed { world with heap } :=
  ⟨heapClosed, fun entry member => across.denotes (closed.statics entry member)⟩

theorem Closed.alloc (closed : world.Closed) {object : HeapObject}
    (known : ∀ value ∈ object.values, world.heap.Denotes value) :
    world.Leads Persists Heap.Denotes (world.alloc object) := by
  have made := world.heap.delivers_alloc object
  unfold World.alloc
  cases world with
  | mk heap statics trace log executed =>
      dsimp only at made ⊢
      cases allocated : heap.alloc object with
      | error fault =>
          rw [allocated] at made
          exact closed.leads made
      | ok outcome =>
          have across : heap.Across Persists outcome.2 := across_alloc Persists.refl allocated
          have kept : ∀ value ∈ object.values, outcome.2.Denotes value :=
            fun value member => across.denotes (known value member)
          exact ⟨closed.withHeap (closed.heap.alloc allocated kept) across, across,
            denotes_alloc allocated⟩

theorem Closed.allocStrings (closed : world.Closed) (texts : List String) :
    world.Leads Persists (fun heap values => ∀ value ∈ values, heap.Denotes value)
      (world.allocStrings texts) := by
  induction texts generalizing world with
  | nil => exact closed.leads (List.forall_mem_nil _)
  | cons text rest ih =>
      have first : world.Leads Persists Heap.Denotes (world.alloc (.string text)) :=
        closed.alloc (List.forall_mem_nil _)
      unfold World.allocStrings
      split
      · rename_i fault after failed
        rw [failed] at first
        exact ⟨first.closed, first.across, first.delivers⟩
      · rename_i value after succeeds
        rw [succeeds] at first
        have others := ih first.closed
        split
        · rename_i fault last failed
          rw [failed] at others
          exact ⟨others.closed, first.across.trans Persists.trans others.across, others.delivers⟩
        · rename_i values last succeeds
          rw [succeeds] at others
          refine ⟨others.closed, first.across.trans Persists.trans others.across, ?_⟩
          intro held member
          rcases List.mem_cons.mp member with rfl | later
          · exact others.across.denotes first.delivers
          · exact others.delivers held later

end World

/-- The result of a call denotes an object, if there is one. -/
def Heap.Yields (heap : Heap) (result : Option Value) : Prop :=
  ∀ value ∈ result, heap.Denotes value

/-- The frames, the arguments and the result that an action passes on denote objects. -/
def Action.Closed (heap : Heap) : Action → Prop
  | .proceed frame => frame.Closed heap
  | .call frame _ args | .guarded frame _ args =>
      frame.Closed heap ∧ ∀ value ∈ args, heap.Denotes value
  | .leave result => heap.Yields result

theorem denotes_lookup {κ : Type} [BEq κ] [LawfulBEq κ] {heap : Heap} {fields : Fields κ}
    (known : ∀ entry ∈ fields, heap.Denotes entry.2) (key : κ) (kind : Kind) :
    heap.Denotes ((fields.lookup key).getD (.zero kind)) := by
  cases found : fields.lookup key with
  | none => exact denotes_zero heap kind
  | some value => exact known _ (mem_of_lookup found)

/-- An entry of a table with a value for a key is that, or an old one. -/
theorem mem_assign {κ : Type} [BEq κ] {fields : Fields κ} {key : κ} {value : Value}
    {entry : κ × Value} (member : entry ∈ fields.assign key value) :
    entry.2 = value ∨ entry ∈ fields := by
  rcases List.mem_cons.mp member with rfl | kept
  · exact .inl rfl
  · exact .inr (List.mem_filter.mp kept).1

namespace Heap

variable {heap : Heap} {value : Value}

theorem delivers_checkCast (denotes : heap.Denotes value) (className : String) :
    Delivers (fun _ => True) (heap.checkCast value className) := by
  unfold checkCast
  cases value with
  | ref handle =>
      obtain ⟨object, held⟩ := denotes handle rfl
      simp only [Value.handle?, held]
      split
      · trivial
      · rfl
  | int | long | float | double | null => trivial

theorem denotes_of_mem_ofClass (heap : Heap) (className : String) (value : Value)
    (member : value ∈ (HeapObject.ofClass className).values) : heap.Denotes value := by
  unfold HeapObject.ofClass at member
  split at member
  · cases List.mem_singleton.mp member
    exact denotes_of_handle? rfl
  · cases member

theorem delivers_instance? (heap : Heap) (receiver : Value) :
    Delivers (fun found => heap.get? found.1 = some (.plain found.2.1 found.2.2))
      (heap.instance? receiver) := by
  unfold instance?
  split
  · split
    · rename_i held
      exact held
    · rfl
  · rfl

theorem delivers_wrapper (heap : Heap) (receiver : Value) :
    Delivers (fun found => heap.get? found.1 = some (.wrapper found.2))
      (heap.wrapper receiver) := by
  unfold wrapper
  split
  · split
    · rename_i held
      exact held
    · rfl
  · rfl

/-- A wrapper whose new state holds old values, and such as denote objects. -/
theorem delivers_modifyWrapper {related : HeapObject → HeapObject → Prop}
    (reflexive : ∀ object, related object object) (closed : heap.Closed) (receiver : Value)
    {change : WrapperState → Except Fault WrapperState}
    (changes : ∀ state, Delivers (fun changed => related (.wrapper state) (.wrapper changed) ∧
      ∀ value ∈ (HeapObject.wrapper changed).values,
        value ∈ (HeapObject.wrapper state).values ∨ heap.Denotes value) (change state)) :
    Delivers (fun next => next.Closed ∧ heap.Across related next)
      (heap.modifyWrapper receiver change) := by
  have found := heap.delivers_wrapper receiver
  unfold modifyWrapper
  cases wrapperEq : heap.wrapper receiver with
  | error fault =>
      rw [wrapperEq] at found
      exact found
  | ok entry =>
      rw [wrapperEq] at found
      refine (changes entry.2).map fun changed spec => ⟨closed.put found ?_, ?_⟩
      · intro value member
        exact (spec.2 value member).elim (closed _ _ found value) id
      · exact across_put reflexive found spec.1

end Heap

namespace Frame

variable {frame : Frame} {world : World} {field : FieldRef} {kind : Kind}

theorem Closed.leads_pushNew (closed : frame.Closed world.heap) (sound : world.Closed)
    {object : HeapObject} (known : ∀ value ∈ object.values, world.heap.Denotes value) :
    world.Leads Persists Action.Closed (frame.pushNew world object) := by
  have allocated := sound.alloc known
  unfold pushNew
  split
  · rename_i fault after failed
    rw [failed] at allocated
    exact ⟨allocated.closed, allocated.across, allocated.delivers⟩
  · rename_i value after succeeds
    rw [succeeds] at allocated
    exact ⟨allocated.closed, allocated.across,
      ((closed.mono allocated.across).push allocated.delivers).map fun _ => id⟩

/-- What is written is a value of the frame. -/
theorem Closed.delivers_writeStatic (closed : frame.Closed world.heap) (sound : world.Closed)
    (field : FieldRef) (kind : Kind) :
    Delivers (fun next => next.1.Closed next.2.heap ∧ next.2.Closed ∧
      world.heap.Across Persists next.2.heap) (frame.writeStatic world field kind) := by
  refine (closed.popKind kind).bind fun top below => ?_
  refine ⟨below.2, ⟨sound.heap, fun entry member => ?_⟩, .refl Persists.refl _⟩
  rcases mem_assign member with written | older
  · exact written ▸ below.1
  · exact sound.statics entry older

theorem Closed.delivers_writeField (closed : frame.Closed world.heap) (sound : world.Closed)
    (field : FieldRef) (kind : Kind) :
    Delivers (fun next => next.1.Closed next.2.heap ∧ next.2.Closed ∧
      world.heap.Across Persists next.2.heap) (frame.writeField world field kind) := by
  refine (closed.popKind kind).bind fun top below => ?_
  refine (below.2.popKind .reference).bind fun receiver rest => ?_
  refine (world.heap.delivers_instance? receiver.1).bind fun found held => ?_
  obtain ⟨handle, className, fields⟩ := found
  let object := HeapObject.plain className (fields.assign field.name top.1)
  have across : world.heap.Across Persists (world.heap.put handle object) :=
    across_put Persists.refl held (.of_eq rfl rfl (.inl rfl))
  have known : ∀ value ∈ object.values, world.heap.Denotes value := by
    intro value member
    obtain ⟨entry, inTable, rfl⟩ := List.mem_map.mp member
    rcases mem_assign inTable with written | older
    · exact written ▸ below.1
    · exact sound.heap handle _ held entry.2 (List.mem_map_of_mem older)
  exact ⟨rest.2.mono across, sound.withHeap (sound.heap.put held known) across, across⟩

theorem leads_proceedWith (sound : world.Closed) {outcome : Except Fault (Frame × World)}
    (delivers : Delivers (fun next => next.1.Closed next.2.heap ∧ next.2.Closed ∧
      world.heap.Across Persists next.2.heap) outcome) :
    world.Leads Persists Action.Closed (proceedWith world outcome) := by
  cases outcome with
  | error fault => exact sound.leads delivers
  | ok next => exact ⟨delivers.2.1, delivers.2.2, delivers.1⟩

theorem Closed.delivers_readField (closed : frame.Closed world.heap) (sound : world.Closed)
    (field : FieldRef) (kind : Kind) :
    Delivers (Closed world.heap) (frame.readField world field kind) := by
  refine (closed.popKind .reference).bind fun receiver below => ?_
  refine (world.heap.delivers_instance? receiver.1).bind fun found held => ?_
  refine below.2.push (denotes_lookup (fun entry member => ?_) field.name kind)
  exact sound.heap found.1 _ held entry.2 (List.mem_map_of_mem member)

theorem Closed.delivers_cast (closed : frame.Closed world.heap) (className : String) :
    Delivers (Closed world.heap) (frame.cast world.heap className) := by
  refine (closed.popKind .reference).bind fun value below => ?_
  exact (delivers_checkCast below.1 className).bind fun _ _ => below.2.push below.1

theorem Closed.leads_access (closed : frame.Closed world.heap) (sound : world.Closed) (op : FieldOp)
    (field : FieldRef) :
    world.Leads Persists Action.Closed (frame.access world op field) := by
  unfold access
  cases field.type.kind? with
  | none => exact sound.leads rfl
  | some kind =>
      cases op with
      | getStatic =>
          have denotes := denotes_lookup sound.statics (field.owner, field.name) kind
          exact sound.leads ((closed.push denotes).map fun _ => id)
      | getField => exact sound.leads ((closed.delivers_readField sound field kind).map fun _ => id)
      | putStatic => exact leads_proceedWith sound (closed.delivers_writeStatic sound field kind)
      | putField => exact leads_proceedWith sound (closed.delivers_writeField sound field kind)

theorem Closed.delivers_prepareCall (closed : frame.Closed world.heap) (mode : CallMode)
    (method : MethodRef) :
    Delivers (Action.Closed world.heap) (frame.prepareCall mode method) := by
  refine (closed.popArgs method mode.hasReceiver).bind fun outcome delivered => ?_
  dsimp only
  split
  · rfl
  · exact ⟨delivered.2, delivered.1⟩

/-- An instruction at work on values that denote objects passes on such values, keeps the world
closed, and lets all objects persist. -/
theorem Closed.leads_act (closed : frame.Closed world.heap) (sound : world.Closed) (instr : Instr) :
    world.Leads Persists Action.Closed (frame.act world instr) := by
  have goesOn {result : Except Fault Frame}
      (delivers : Delivers (Frame.Closed world.heap) result) :
      world.Leads Persists Action.Closed (result.map .proceed, world) :=
    sound.leads (delivers.map fun _ => id)
  cases instr with
  | nop | label => exact sound.leads closed
  | const constant =>
      cases constant with
      | string text => exact closed.leads_pushNew sound (List.forall_mem_nil _)
      | null | int | long | float | double =>
          exact goesOn (closed.push (denotes_of_handle? rfl))
  | load kind index =>
      exact goesOn ((closed.loadLocal kind index).bind fun value denotes => closed.push denotes)
  | store kind index =>
      exact goesOn ((closed.popKind kind).bind fun top below => below.2.storeLocal index below.1)
  | pop => exact goesOn (closed.popSlot.map fun top below => below.2)
  | dup => exact goesOn closed.duplicate
  | arith op kind => exact goesOn (closed.calculate op kind)
  | new className => exact closed.leads_pushNew sound (denotes_of_mem_ofClass _ className)
  | checkCast className => exact goesOn (closed.delivers_cast className)
  | field op field => exact closed.leads_access sound op field
  | call mode method => exact sound.leads (closed.delivers_prepareCall mode method)
  | guardedCall call =>
      exact sound.leads ((closed.popArgs call.target false).map fun outcome delivered =>
        ⟨delivered.2, delivered.1⟩)
  | jump cond target =>
      refine goesOn ((closed.test cond).bind fun tested below => ?_)
      dsimp only
      split
      · exact below.goto target
      · exact below
  | ret kind =>
      cases kind with
      | none => exact sound.leads nofun
      | some kind =>
          refine sound.leads ((closed.popKind kind).map fun top delivered => ?_)
          rintro value ⟨⟩
          exact delivered.1
  | throw => exact sound.leads ((closed.popKind .reference).bind fun top below => rfl)

end Frame

end Weaver.Machine
