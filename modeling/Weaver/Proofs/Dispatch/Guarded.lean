import Weaver.Proofs.Dispatch.Schedule

/-!
# Guarded calls of listeners

The fallback of a guarded call reads back the strings that were allocated for it, so that a missing
listener is reported by its event, class and method.  The guarded call of a listener therefore does
what processing the listener is to do.
-/

namespace Weaver.Machine

/-- Allocated strings leave the objects alone that were there before. -/
theorem get?_of_allocStrings {world after : World} {texts : List String} {values : List Value}
    (allocated : world.allocStrings texts = (.ok values, after)) {id : Nat}
    (older : id < world.heap.objects.size) : after.heap.get? ⟨id⟩ = world.heap.get? ⟨id⟩ := by
  induction texts generalizing world values with
  | nil =>
      cases allocated
      rfl
  | cons text rest ih =>
      unfold World.allocStrings at allocated
      split at allocated
      · cases allocated
      · rename_i value middle allocEq
        obtain ⟨_, _, rfl⟩ := World.alloc_eq_ok_iff.mp allocEq
        split at allocated
        · cases allocated
        · rename_i later last restEq
          cases allocated
          have older' : id < (world.allocated (.string text)).heap.objects.size := by
            simp only [World.allocated, Array.size_push]
            omega
          rw [ih restEq older', get?_allocated_of_lt world _ older]

theorem string?_of_allocStrings {world after : World} {texts : List String} {values : List Value}
    (allocated : world.allocStrings texts = (.ok values, after)) :
    values.map after.heap.string? = texts.map some := by
  induction texts generalizing world values with
  | nil =>
      cases allocated
      rfl
  | cons text rest ih =>
      unfold World.allocStrings at allocated
      split at allocated
      · cases allocated
      · rename_i value middle allocEq
        obtain ⟨_, rfl, rfl⟩ := World.alloc_eq_ok_iff.mp allocEq
        split at allocated
        · cases allocated
        · rename_i later last restEq
          cases allocated
          have kept : after.heap.get? ⟨world.heap.objects.size⟩ = some (.string text) := by
            rw [get?_of_allocStrings restEq (by simp [World.allocated])]
            exact get?_allocated world _
          have read : after.heap.string? world.nextRef = some text := by
            simp only [Heap.string?, Heap.deref?, World.nextRef, Value.handle?, Option.bind_some,
              kept]
          rw [List.map_cons, List.map_cons, read, ih restEq]

theorem owner_fallback (name : String) :
    (Dispatch.fallback name).owner = Dispatch.supportClass := by
  change Text.slashed Dispatch.supportClass = Dispatch.supportClass
  cbv

/-- A report whose arguments are read back names the event, the class and the method. -/
theorem reportMissing_eq {world : World} {name missing event owner method : String}
    {args : List Value}
    (read : args.map world.heap.string? = [event, owner, method].map some) :
    Intrinsic.reportMissing world name missing args =
      world.reported name missing event owner method := by
  have texts : ∀ index text, [event, owner, method][index]? = some text →
      Intrinsic.argText world args index = text := by
    intro index text known
    have found : (args.map world.heap.string?)[index]? = some (some text) := by
      rw [read, List.getElem?_map, known]
      rfl
    rw [List.getElem?_map, Option.map_eq_some_iff] at found
    obtain ⟨value, valueEq, stringEq⟩ := found
    rw [Intrinsic.argText, valueEq, Option.bind_some, stringEq]
    rfl
  simp only [Intrinsic.reportMissing, World.reported, texts 0 event rfl, texts 1 owner rfl,
    texts 2 method rfl]

/-- The fallback of a void call reports the listener as missing. -/
theorem callFallback_eq {program : Program} {execute : Body → List Value → World → CallResult}
    {name missing : String} {event : Event} {call : GuardedCall}
    (contextEq : call.context = event.name) (void : call.target.signature.ret = .void)
    (reports : ∀ args world,
      Intrinsic.supportMethod? (Dispatch.fallback name) args world =
        some (.ok none, Intrinsic.reportMissing world name missing args)) (world : World) :
    Interpreter.callFallback (Interpreter.behaviour program execute) call (Dispatch.fallback name)
        world =
      Outcome.bind (reportMissing name missing event call.target world)
        fun _ world => (.ok none, world) := by
  unfold Interpreter.callFallback reportMissing
  rw [contextEq]
  split
  · rename_i fault after allocEq
    rw [allocEq]
    rfl
  · rename_i report after allocEq
    have answered : Interpreter.behaviour program execute (Dispatch.fallback name) report after =
        (.ok none, after.reported name missing event.name call.target.owner call.target.name) := by
      rw [Interpreter.behaviour, Intrinsic.call?, if_pos (owner_fallback name), reports,
        reportMissing_eq (string?_of_allocStrings allocEq)]
    rw [answered, allocEq, void]
    rfl

/-- The guarded call of a listener that returns no value does what processing it is to do. -/
theorem callGuarded_eq {program : Program} {execute : Body → List Value → World → CallResult}
    {listener : Listener} {routine : Signature}
    (quiet : Quiet program (Interpreter.behaviour program execute) (listener.target routine))
    (event : Event) (args : List Value) (world : World) :
    Interpreter.callGuarded program (Interpreter.behaviour program execute)
        (Routine.guardedCall event listener ⟨listener.taken routine, .void⟩)
        (args.take (listener.taken routine).length) world =
      Outcome.bind
        (process program (Interpreter.behaviour program execute) routine args (event, listener)
          world)
        fun _ world => (.ok none, world) := by
  have targetEq : (Routine.guardedCall event listener ⟨listener.taken routine, .void⟩).target =
      listener.target routine := rfl
  unfold Interpreter.callGuarded process
  rw [targetEq]
  by_cases unknown : program.hasClass (listener.target routine).owner = false
  · rw [if_pos (by rw [unknown]; rfl), if_pos unknown]
    exact callFallback_eq rfl rfl (fun _ _ => rfl) world
  · rw [if_neg (by simpa using unknown), if_neg unknown]
    by_cases absent : program.resolve? (listener.target routine) = none
    · rw [if_pos (by rw [absent]; rfl), if_pos absent]
      exact callFallback_eq rfl rfl (fun _ _ => rfl) world
    · rw [if_neg (by simpa using absent), if_neg absent, Outcome.bind_assoc]
      rcases answered : Interpreter.behaviour program execute (listener.target routine)
        (args.take (listener.taken routine).length) world with ⟨fault | result, after⟩
      · rfl
      · cases result with
        | none => rfl
        | some value =>
            have returns : (Interpreter.behaviour program execute (listener.target routine)
                (args.take (listener.taken routine).length) world).1 = .ok (some value) := by
              rw [answered]
            exact absurd returns (quiet (by simpa using unknown) absent _ world value)

end Weaver.Machine
