import Weaver.Proofs.Machine.Straight

/-!
# Calls of event wrappers

The methods of the wrapper classes exist in every program.  `withWrappers` answers their calls and
leaves all others to an arbitrary behaviour, so that a statement about it is one about any program
and any native methods.
-/

namespace Weaver.Machine

/-- The intrinsic method of a wrapper class, if the reference is one. -/
def Intrinsic.ofWrapper? (method : MethodRef) (args : List Value) (world : World) :
    Option CallResult :=
  if (Wrapper.ofClassName? method.owner).isSome then
    constructor? method args world <|> wrapperMethod? method args world
  else none

/-- The behaviour of the wrapper classes, with another one for all other methods. -/
def withWrappers (other : Behaviour) : Behaviour := fun method args world =>
  (Intrinsic.ofWrapper? method args world).getD (other method args world)

/-- In every program the wrapper classes behave as they do. -/
theorem withWrappers_behaviour (program : Program)
    (execute : Body → List Value → World → CallResult) :
    withWrappers (Interpreter.behaviour program execute) =
      Interpreter.behaviour program execute := by
  funext method args world
  unfold withWrappers
  cases known : Intrinsic.ofWrapper? method args world with
  | none => rfl
  | some result =>
      have ofClass : (Wrapper.ofClassName? method.owner).isSome = true := by
        by_contra other
        simp [Intrinsic.ofWrapper?, other] at known
      have notSupport : method.owner ≠ Dispatch.supportClass := by
        intro same
        rw [same] at ofClass
        revert ofClass
        decide
      have intrinsic : Intrinsic.call? method args world = some result := by
        rw [Intrinsic.call?, if_neg notSupport, ← known]
        rfl
      rw [Interpreter.behaviour, intrinsic]
      rfl

theorem owner_constructor (wrapper : Wrapper) : wrapper.constructor.owner = wrapper.className := by
  cases wrapper <;> cbv

theorem owner_isCancelled (wrapper : Wrapper) : wrapper.isCancelled.owner = wrapper.className := by
  cases wrapper <;> cbv

/-- A call of a wrapper's constructor. -/
theorem withWrappers_constructor (other : Behaviour) (wrapper : Wrapper)
    (receiver name source cancellable : Value) (world : World) :
    withWrappers other wrapper.constructor [receiver, name, source, cancellable] world =
      Intrinsic.construct world receiver name source cancellable := by
  have known :
      Intrinsic.ofWrapper? wrapper.constructor [receiver, name, source, cancellable] world =
        some (Intrinsic.construct world receiver name source cancellable) := by
    have constructorName : wrapper.constructor.name = Wrapper.constructorName := rfl
    simp [Intrinsic.ofWrapper?, owner_constructor, Intrinsic.constructor?, constructorName]
  rw [withWrappers, known]
  rfl

/-- A wrapper tells whether it was cancelled. -/
theorem withWrappers_isCancelled (other : Behaviour) (wrapper : Wrapper) (receiver : Value)
    (world : World) :
    withWrappers other wrapper.isCancelled [receiver] world =
      ((world.heap.isCancelled receiver).map fun cancelled => some (.ofBool cancelled), world) := by
  have isCancelledName : wrapper.isCancelled.name = Wrapper.isCancelledName := rfl
  have known : Intrinsic.ofWrapper? wrapper.isCancelled [receiver] world =
      some ((world.heap.isCancelled receiver).map fun cancelled => some (.ofBool cancelled),
        world) := by
    simp only [Intrinsic.ofWrapper?, owner_isCancelled, Wrapper.ofClassName?_className,
      Option.isSome_some, if_true, Intrinsic.constructor?, Intrinsic.wrapperMethod?,
      isCancelledName, Intrinsic.ask, Heap.isCancelled]
    cases world.heap.wrapper receiver with
    | error fault => rfl
    | ok state => rfl
  rw [withWrappers, known]
  rfl

/-- A method with a result has an accessor for it.  What the accessor reads is cast to the class of
the result, unless that is the class of all objects. -/
theorem exists_returnAccessor {ret : Ty} {kind : Kind} (kindEq : ret.kind? = some kind) :
    ∃ accessor, Wrapper.returnAccessor? ret = some accessor ∧ accessor.kind = kind ∧
      accessor.method.signature.params = [] ∧
      accessor.method.signature.ret.kind? = some kind ∧
      accessor.cast = ret.castName?.filter (· ≠ Ty.objectClass) := by
  cases ret <;> cases kindEq <;> exact ⟨_, rfl, rfl, rfl, rfl, rfl⟩

/-- An accessor is a method of wrappers that reads the value to return. -/
theorem reads_of_returnAccessor {ret : Ty} {accessor : ReturnAccessor}
    (known : Wrapper.returnAccessor? ret = some accessor) :
    accessor.method.owner = Wrapper.className .returning ∧
      Wrapper.getReturnValueName.toList.isPrefixOf accessor.method.name.toList = true := by
  constructor
  · cases ret <;> cases known <;> exact owner_constructor .returning
  · cases ret with
    | object name | array element =>
        cases known
        exact List.isPrefixOf_iff_prefix.mpr (List.prefix_refl _)
    | _ => cases known <;> decide +kernel

/-- A wrapper gives the value to return. -/
theorem withWrappers_returnAccessor (other : Behaviour) {ret : Ty} {accessor : ReturnAccessor}
    (known : Wrapper.returnAccessor? ret = some accessor) (receiver : Value) (world : World) :
    withWrappers other accessor.method [receiver] world =
      Intrinsic.ask world receiver fun state =>
        Intrinsic.returnValue accessor.method state.returnValue := by
  obtain ⟨owner, reads⟩ := reads_of_returnAccessor known
  have different : ∀ name : String,
      Wrapper.getReturnValueName.toList.isPrefixOf name.toList = false →
        accessor.method.name ≠ name := by
    intro name notPrefix same
    rw [same, notPrefix] at reads
    cases reads
  have answered : Intrinsic.ofWrapper? accessor.method [receiver] world =
      some (Intrinsic.ask world receiver fun state =>
        Intrinsic.returnValue accessor.method state.returnValue) := by
    simp [Intrinsic.ofWrapper?, owner, Intrinsic.constructor?, Intrinsic.wrapperMethod?, reads,
      different Wrapper.isCancelledName (by decide +kernel),
      different Wrapper.cancelName (by decide +kernel),
      different Wrapper.setReturnValueName (by decide +kernel)]
  rw [withWrappers, answered]
  rfl

/-- A wrapper on the stack is asked whether it was cancelled. -/
theorem advances_of_isCancelled {interpreter : Interpreter} {other : Behaviour} {frame : Frame}
    {world : World} {wrapper : Wrapper} {handle : Handle} {rest : List Slot} {cancelled : Bool}
    (fetched : frame.code[frame.pc]? = some (.call .virtual wrapper.isCancelled))
    (budget : world.executed < interpreter.limits.budget)
    (stackEq : frame.stack = .value (.ref handle) :: rest)
    (room : rest.length + 1 ≤ frame.body.maxStack)
    (told : world.heap.isCancelled (.ref handle) = .ok cancelled) :
    interpreter.Advances (withWrappers other) (frame, world)
      (frame.behind (.value (.ofBool cancelled) :: rest), world.counted) := by
  have popped : Frame.popArgs { frame with pc := frame.pc + 1 } wrapper.isCancelled true =
      .ok ([.ref handle], frame.behind rest) :=
    Frame.popArgs_receiver_eq_ok rfl rfl stackEq
  have pushed : (frame.behind rest).push (.ofBool cancelled) =
      .ok (frame.behind (.value (.ofBool cancelled) :: rest)) :=
    Frame.push_eq_ok_iff.mpr ⟨room, rfl⟩
  have answered : withWrappers other wrapper.isCancelled [.ref handle] world.counted =
      (.ok (some (.ofBool cancelled)), world.counted) := by
    rw [withWrappers_isCancelled, World.counted_heap, told]
    rfl
  exact Interpreter.advances_of_call fetched budget popped rfl answered pushed

theorem ofClass_className (wrapper : Wrapper) :
    HeapObject.ofClass wrapper.className = .wrapper (.fresh wrapper) := by
  rw [HeapObject.ofClass, Wrapper.ofClassName?_className]

theorem get?_allocated (world : World) (object : HeapObject) :
    (world.allocated object).heap.get? ⟨world.heap.objects.size⟩ = some object :=
  Array.getElem?_push_size

theorem get?_allocated_of_lt (world : World) (object : HeapObject) {id : Nat}
    (older : id < world.heap.objects.size) :
    (world.allocated object).heap.get? ⟨id⟩ = world.heap.get? ⟨id⟩ := by
  simp [Heap.get?, World.allocated, Array.getElem?_push, Nat.ne_of_lt older]

/-- The last object but one can be changed as if it had been allocated so. -/
theorem put_allocated (world : World) (old new last : HeapObject) :
    ((world.allocated old).allocated last).heap.put ⟨world.heap.objects.size⟩ new =
      ((world.allocated new).allocated last).heap := by
  have changed : ((world.heap.objects.push old).push last).setIfInBounds
      world.heap.objects.size new = (world.heap.objects.push new).push last := by
    rw [Array.setIfInBounds_def, dif_pos (by simp only [Array.size_push]; omega),
      Array.set_push, dif_pos (by simp), Array.set_push]
    simp
  simp only [Heap.put, World.allocated, changed]

/-- Constructing a wrapper fills in the one that was allocated last but one, before its name. -/
theorem construct_allocated (world : World) (wrapper : Wrapper) (event : String) (source : Value)
    (cancellable : Bool) :
    Intrinsic.construct
        ((world.allocated (.wrapper (.fresh wrapper))).allocated (.string event)) world.nextRef
        (world.allocated (.wrapper (.fresh wrapper))).nextRef source
        (.int (if cancellable then 1 else 0)) =
      (.ok none,
        (world.allocated (.wrapper ⟨wrapper, event, source, cancellable, false, none⟩)).allocated
          (.string event)) := by
  have name : ((world.allocated (.wrapper (.fresh wrapper))).allocated
      (.string event)).heap.string? (world.allocated (.wrapper (.fresh wrapper))).nextRef =
        some event := by
    have found := get?_allocated (world.allocated (.wrapper (.fresh wrapper))) (.string event)
    simp only [Heap.string?, Heap.deref?, World.nextRef, Value.handle?, Option.bind_some, found]
  have fresh : ((world.allocated (.wrapper (.fresh wrapper))).allocated
      (.string event)).heap.wrapper world.nextRef =
        .ok (⟨world.heap.objects.size⟩, .fresh wrapper) := by
    have found := get?_allocated world (.wrapper (.fresh wrapper))
    rw [← get?_allocated_of_lt (world.allocated (.wrapper (.fresh wrapper))) (.string event)
      (by simp [World.allocated])] at found
    simp only [Heap.wrapper, World.nextRef, found]
  have flag : (Value.int (if cancellable then 1 else 0)).bool? = some cancellable := by
    cases cancellable <;> rfl
  simp only [Intrinsic.construct, Intrinsic.change, Heap.modifyWrapper, fresh, name, flag,
    Except.map, put_allocated]
  rfl

end Weaver.Machine
