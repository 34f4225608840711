import Weaver.Proofs.Machine.Fields

/-!
# Handles that denote objects

A handle denotes an object once one was allocated under it.  A heap is closed if all values that its
objects hold denote objects.  It stays so as long as only such values are stored, and as objects are
changed but never taken away, a value that denotes an object does so for good.
-/

namespace Weaver.Machine

namespace HeapObject

/-- The values that an object holds. -/
def values : HeapObject → List Value
  | .string _ => []
  | .wrapper state => state.source :: state.returnValue.toList
  | .plain _ fields => fields.map Prod.snd

/-- Whether an object is a wrapper that may be cancelled. -/
def cancellable : HeapObject → Bool
  | .wrapper state => state.cancellable
  | .string _ | .plain _ _ => false

/-- Whether an object is a wrapper that was cancelled. -/
def cancelled : HeapObject → Bool
  | .wrapper state => state.cancelled
  | .string _ | .plain _ _ => false

/-- What becomes of an object in the long run: it keeps its class, and a wrapper that was cancelled
stays so. -/
structure Outlasts (old new : HeapObject) : Prop where
  className_eq : new.className = old.className
  stays : old.cancelled = true → new.cancelled = true

/-- What becomes of an object at once: besides, a wrapper is cancelled only while it may be. -/
structure Becomes (old new : HeapObject) : Prop extends Outlasts old new where
  allowed : old.cancelled = false → new.cancelled = true →
    old.cancellable = true ∧ new.cancellable = true

/-- What becomes of an object that is not constructed again. -/
structure Persists (old new : HeapObject) : Prop extends Becomes old new where
  cancellable_eq : new.cancellable = old.cancellable

variable {old middle new : HeapObject}

theorem Outlasts.trans (first : old.Outlasts middle) (second : middle.Outlasts new) :
    old.Outlasts new :=
  ⟨second.className_eq.trans first.className_eq, fun held => second.stays (first.stays held)⟩

/-- An object whose flag is left alone persists if it is cancelled at most while that is set. -/
theorem Persists.of_eq (className_eq : new.className = old.className)
    (cancellable_eq : new.cancellable = old.cancellable)
    (cancelled : new.cancelled = old.cancelled ∨
      new.cancelled = true ∧ old.cancellable = true) : old.Persists new where
  className_eq
  stays held := cancelled.elim (fun same => same.trans held) And.left
  allowed before after := by
    rcases cancelled with same | ⟨_, may⟩
    · rw [after, before] at same
      cases same
    · exact ⟨may, cancellable_eq.trans may⟩
  cancellable_eq

theorem Persists.refl (object : HeapObject) : object.Persists object := .of_eq rfl rfl (.inl rfl)

theorem Becomes.refl (object : HeapObject) : object.Becomes object :=
  (Persists.refl object).toBecomes

theorem Outlasts.refl (object : HeapObject) : object.Outlasts object :=
  (Becomes.refl object).toOutlasts

theorem Persists.trans (first : old.Persists middle) (second : middle.Persists new) :
    old.Persists new := by
  refine .of_eq (second.className_eq.trans first.className_eq)
    (second.cancellable_eq.trans first.cancellable_eq) ?_
  cases heldFirst : old.cancelled with
  | true => exact .inl (second.stays (first.stays heldFirst))
  | false =>
      cases heldLast : new.cancelled with
      | false => exact .inl rfl
      | true =>
          refine .inr ⟨rfl, ?_⟩
          cases heldMiddle : middle.cancelled with
          | true => exact (first.allowed heldFirst heldMiddle).1
          | false =>
              rw [← first.cancellable_eq]
              exact (second.allowed heldMiddle heldLast).1

theorem Becomes.of_eq (className_eq : new.className = old.className)
    (cancelled_eq : new.cancelled = old.cancelled) : old.Becomes new where
  className_eq
  stays held := cancelled_eq.trans held
  allowed before after := by
    rw [cancelled_eq, before] at after
    cases after

end HeapObject

open HeapObject

namespace Heap

/-- A value denotes an object, unless it is no reference at all. -/
def Denotes (heap : Heap) (value : Value) : Prop :=
  ∀ handle, value = .ref handle → ∃ object, heap.get? handle = some object

/-- All values that objects hold denote objects. -/
def Closed (heap : Heap) : Prop :=
  ∀ handle object, heap.get? handle = some object → ∀ value ∈ object.values, heap.Denotes value

/-- All objects of one heap are there in another, in a related state. -/
def Across (related : HeapObject → HeapObject → Prop) (before after : Heap) : Prop :=
  ∀ handle old, before.get? handle = some old →
    ∃ new, after.get? handle = some new ∧ related old new

/-- What a native method does to a heap. -/
inductive Touch : Heap → Heap → Prop
  /-- It allocates an object that holds what denotes objects. -/
  | alloc {heap next object value} (allocated : heap.alloc object = .ok (value, next))
      (known : ∀ value ∈ object.values, next.Denotes value) : Touch heap next
  /-- It cancels a wrapper. -/
  | cancel {heap next receiver} (cancelled : heap.cancel receiver = .ok next) : Touch heap next
  /-- It cancels a wrapper and stores a value that denotes an object. -/
  | cancelWith {heap next receiver result}
      (cancelled : heap.cancelWith receiver result = .ok next) (known : heap.Denotes result) :
      Touch heap next

/-- Any number of such accesses. -/
def Touches : Heap → Heap → Prop := Relation.ReflTransGen Touch

variable {heap before middle after next : Heap} {handle : Handle} {old new object : HeapObject}
  {value receiver result : Value} {related : HeapObject → HeapObject → Prop}

theorem denotes_of_handle? (number : value.handle? = none) : heap.Denotes value := by
  rintro handle rfl
  cases number

theorem denotes_zero (heap : Heap) (kind : Kind) : heap.Denotes (.zero kind) := by
  cases kind <;> exact denotes_of_handle? rfl

namespace Across

theorem refl (reflexive : ∀ object, related object object) (heap : Heap) :
    heap.Across related heap :=
  fun _ old held => ⟨old, held, reflexive old⟩

theorem trans (transitive : ∀ {old middle new}, related old middle → related middle new →
    related old new) (first : before.Across related middle)
    (second : middle.Across related after) : before.Across related after := by
  intro handle old held
  obtain ⟨between, heldBetween, toBetween⟩ := first handle old held
  obtain ⟨new, heldNew, toNew⟩ := second handle between heldBetween
  exact ⟨new, heldNew, transitive toBetween toNew⟩

theorem mono {weaker : HeapObject → HeapObject → Prop} (across : before.Across related after)
    (weaken : ∀ {old new}, related old new → weaker old new) : before.Across weaker after := by
  intro handle old held
  obtain ⟨new, heldNew, becomes⟩ := across handle old held
  exact ⟨new, heldNew, weaken becomes⟩

theorem denotes (across : before.Across related after) (denotes : before.Denotes value) :
    after.Denotes value := by
  intro handle valueEq
  obtain ⟨old, held⟩ := denotes handle valueEq
  obtain ⟨new, heldNew, _⟩ := across handle old held
  exact ⟨new, heldNew⟩

end Across

/-- A new object is found under its handle, and the others are found as before. -/
theorem get?_of_alloc (allocated : heap.alloc object = .ok (value, next)) (other : Handle) :
    value = .ref ⟨heap.objects.size⟩ ∧
      next.get? other = if other = ⟨heap.objects.size⟩ then some object else heap.get? other := by
  unfold alloc at allocated
  split at allocated
  · cases allocated
  · split at allocated
    · cases allocated
    · cases allocated
      refine ⟨rfl, ?_⟩
      cases other
      simp [get?, Array.getElem?_push]

theorem across_alloc (reflexive : ∀ object, related object object)
    (allocated : heap.alloc object = .ok (value, next)) : heap.Across related next := by
  intro handle old held
  have inside : handle.id < heap.objects.size := (Array.getElem?_eq_some_iff.mp held).1
  have older : handle ≠ ⟨heap.objects.size⟩ := by
    rintro rfl
    exact Nat.lt_irrefl _ inside
  refine ⟨old, ?_, reflexive old⟩
  rw [(get?_of_alloc allocated handle).2, if_neg older]
  exact held

theorem denotes_alloc (allocated : heap.alloc object = .ok (value, next)) :
    next.Denotes value := by
  obtain ⟨rfl, found⟩ := get?_of_alloc allocated ⟨heap.objects.size⟩
  rintro handle ⟨rfl⟩
  exact ⟨object, found.trans (if_pos rfl)⟩

theorem Closed.alloc (closed : heap.Closed) (allocated : heap.alloc object = .ok (value, next))
    (known : ∀ value ∈ object.values, next.Denotes value) : next.Closed := by
  have kept : heap.Across (fun _ _ => True) next := across_alloc (fun _ => trivial) allocated
  intro handle found heldNext held member
  rw [(get?_of_alloc allocated handle).2] at heldNext
  split at heldNext
  · cases heldNext
    exact known held member
  · exact kept.denotes (closed handle found heldNext held member)

theorem across_put (reflexive : ∀ object, related object object)
    (held : heap.get? handle = some old) (becomes : related old new) :
    heap.Across related (heap.put handle new) := by
  intro other found heldOther
  rw [get?_put new held]
  by_cases same : other = handle
  · subst same
    cases held.symm.trans heldOther
    exact ⟨new, if_pos rfl, becomes⟩
  · exact ⟨found, (if_neg same).trans heldOther, reflexive found⟩

theorem Closed.put (closed : heap.Closed) (held : heap.get? handle = some old)
    (known : ∀ value ∈ new.values, heap.Denotes value) : (heap.put handle new).Closed := by
  have kept : heap.Across (fun _ _ => True) (heap.put handle new) :=
    across_put (fun _ => trivial) held trivial
  intro other found heldOther value member
  rw [get?_put new held] at heldOther
  split at heldOther
  · cases heldOther
    exact kept.denotes (known value member)
  · exact kept.denotes (closed other found heldOther value member)

section modifyWrapper

variable {change : WrapperState → Except Fault WrapperState}

/-- Where the state of a wrapper is changed, all other objects stay as they are. -/
theorem across_modifyWrapper (reflexive : ∀ object, related object object)
    (modified : heap.modifyWrapper receiver change = .ok next)
    (becomes : ∀ state changed, change state = .ok changed →
      related (.wrapper state) (.wrapper changed)) : heap.Across related next := by
  obtain ⟨handle, state, changed, found, changes, rfl⟩ := modifyWrapper_eq_ok_iff.mp modified
  exact across_put reflexive (wrapper_eq_ok_iff.mp found).2 (becomes state changed changes)

/-- A closed heap stays so if what is new in the state of a wrapper denotes objects. -/
theorem Closed.modifyWrapper (closed : heap.Closed)
    (modified : heap.modifyWrapper receiver change = .ok next)
    (known : ∀ state changed, change state = .ok changed →
      ∀ value ∈ (HeapObject.wrapper changed).values,
        value ∈ (HeapObject.wrapper state).values ∨ heap.Denotes value) : next.Closed := by
  obtain ⟨handle, state, changed, found, changes, rfl⟩ := modifyWrapper_eq_ok_iff.mp modified
  obtain ⟨_, held⟩ := wrapper_eq_ok_iff.mp found
  refine closed.put held fun value member => ?_
  rcases known state changed changes value member with old | denotes
  · exact closed handle _ held value old
  · exact denotes

end modifyWrapper

end Heap

namespace WrapperState

variable {state changed : WrapperState}

/-- A wrapper that is cancelled allows it. -/
theorem cancel_eq_ok_iff :
    state.cancel = .ok changed ↔
      state.cancellable = true ∧ changed = { state with cancelled := true } := by
  unfold cancel
  by_cases may : state.cancellable = true <;> simp [may, eq_comm]

theorem persists_of_cancel (cancels : state.cancel = .ok changed) :
    (HeapObject.wrapper state).Persists (.wrapper changed) := by
  obtain ⟨may, rfl⟩ := cancel_eq_ok_iff.mp cancels
  exact .of_eq rfl rfl (.inr ⟨rfl, may⟩)

theorem mem_of_cancel (cancels : state.cancel = .ok changed) (value : Value)
    (member : value ∈ (HeapObject.wrapper changed).values) :
    value ∈ (HeapObject.wrapper state).values := by
  obtain ⟨_, rfl⟩ := cancel_eq_ok_iff.mp cancels
  exact member

end WrapperState

namespace Heap

variable {heap next : Heap}

theorem Touch.across (touch : Touch heap next) : heap.Across Persists next := by
  cases touch with
  | alloc allocated => exact across_alloc Persists.refl allocated
  | cancel cancelled =>
      exact across_modifyWrapper Persists.refl cancelled fun _ _ => WrapperState.persists_of_cancel
  | cancelWith cancelled =>
      refine across_modifyWrapper Persists.refl cancelled fun state changed changes => ?_
      obtain ⟨later, cancels, rfl⟩ := map_eq_ok_iff.mp changes
      exact (WrapperState.persists_of_cancel cancels).trans (.of_eq rfl rfl (.inl rfl))

/-- What a native method does keeps a heap closed. -/
theorem Touch.closed (touch : Touch heap next) (closed : heap.Closed) : next.Closed := by
  cases touch with
  | alloc allocated known => exact closed.alloc allocated known
  | cancel cancelled =>
      exact closed.modifyWrapper cancelled fun _ _ cancels value member =>
        .inl (WrapperState.mem_of_cancel cancels value member)
  | cancelWith cancelled known =>
      refine closed.modifyWrapper cancelled fun state changed changes value member => ?_
      obtain ⟨later, cancels, rfl⟩ := map_eq_ok_iff.mp changes
      rcases List.mem_cons.mp member with rfl | stored
      · exact .inl (WrapperState.mem_of_cancel cancels _ List.mem_cons_self)
      · cases List.mem_singleton.mp stored
        exact .inr known

theorem Touches.across (touches : Touches heap next) : heap.Across Persists next := by
  induction touches with
  | refl => exact .refl Persists.refl _
  | tail _ touch ih => exact ih.trans Persists.trans touch.across

theorem Touches.closed (touches : Touches heap next) (closed : heap.Closed) : next.Closed := by
  induction touches with
  | refl => exact closed
  | tail _ touch ih => exact touch.closed ih

end Heap

end Weaver.Machine
