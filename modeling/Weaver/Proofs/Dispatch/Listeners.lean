import Weaver.Proofs.Dispatch.Execution
import Weaver.Proofs.Dispatch.Order

/-!
# Dispatch routines run their listeners in order

A routine to which events were added in any order, generated and executed, processes the listeners
that accept it: events by rank, listeners in the order of their registration, each once, and none
after the wrapper was cancelled where listeners may cancel.
-/

namespace Weaver

/-- The listeners that accept a signature, event by event. -/
def EventStore.pairs (store : EventStore) (routine : Signature) (events : List EventId) :
    List (Event × Listener) :=
  events.flatMap fun id =>
    ((store.get id).listeners.filter fun listener => listener.Accepts routine).map
      (store.get id, ·)

namespace Routine

@[simp]
theorem addEvents_signature (routine : Routine) (added : List (EventStore × EventId)) :
    (routine.addEvents added).signature = routine.signature := by
  rw [addEvents_eq]

@[simp]
theorem addEvents_cancellable (routine : Routine) (added : List (EventStore × EventId)) :
    (routine.addEvents added).cancellable = routine.cancellable := by
  rw [addEvents_eq]

/-- The pairs that are processed are those of the routine that fit. -/
theorem filter_listeners (routine : Routine) (store : EventStore) (signature : Signature) :
    (routine.listeners store).filter (fun pair => pair.2.Accepts signature) =
      store.pairs signature routine.eventIds := by
  rw [listeners, EventStore.pairs, List.filter_flatMap]
  congr 1
  funext id
  rw [List.filter_map]
  rfl

/-- A routine branches to its end exactly if listeners may cancel and there is one that fits. -/
theorem branches_eq (routine : Routine) (entries : List (Event × Listener)) :
    routine.branches entries =
      (routine.cancellable &&
        !(entries.filter fun pair => pair.2.Accepts routine.signature).isEmpty) := by
  have resolved : ∀ pair : Event × Listener, (pair.2.resolve? routine.signature).isSome =
      decide (pair.2.Accepts routine.signature) := by
    intro pair
    rw [Listener.resolve?_eq]
    split <;> simp_all
  rw [branches]
  congr 1
  induction entries with
  | nil => rfl
  | cons pair rest ih =>
      rw [List.any_cons, ih, resolved, List.filter_cons]
      split <;> simp_all

end Routine

namespace Machine

open Interpreter in
/-- What is executed of a generated routine is a dispatch to its listeners. -/
theorem executeWithin_of_generate (interpreter : Interpreter) (depth : Nat) (store : EventStore)
    (routine : Routine) (handle : Handle) (args : List Value) (world : World)
    (kindsEq : routine.signature.params.map Ty.kind? =
      (Value.ref handle :: args).map fun value => some value.kind)
    (narrow : routine.signature.totalSlots ≤ slotLimit)
    (quiet : ∀ pair ∈ store.pairs routine.signature routine.eventIds,
      Quiet interpreter.program (behaviour interpreter.program (interpreter.executeWithin depth))
        (pair.2.target routine.signature)) :
    ∃ body, (routine.generate store).1 = .ok body ∧
      interpreter.executeWithin (depth + 1) body (.ref handle :: args) world =
        dispatch interpreter (behaviour interpreter.program (interpreter.executeWithin depth))
          routine.signature routine.cancellable
          (routine.cancellable && !(store.pairs routine.signature routine.eventIds).isEmpty)
          (.ref handle) args (store.pairs routine.signature routine.eventIds) world := by
  obtain ⟨body, generatedEq, generated⟩ := Routine.generate_eq_ok narrow store
  obtain ⟨labels, collected, labelled⟩ := generated.labels
  have takes : Takes body (.ref handle :: args) := by
    rw [Takes, Body.argumentKinds, generated.isStatic_eq, generated.signature_eq, if_pos rfl,
      List.nil_append, kindsEq]
  have inside : body.firstArgSlot + body.signature.totalSlots ≤ body.maxLocals := by
    rw [Body.firstArgSlot, generated.isStatic_eq, generated.signature_eq, generated.maxLocals_eq]
    exact Nat.le_of_eq (Nat.zero_add _)
  obtain ⟨locals, entered, sizeEq, holds⟩ := Frame.enter_eq_ok takes collected inside
  refine ⟨body, generatedEq, ?_⟩
  have counts : Counts (behaviour interpreter.program (interpreter.executeWithin depth)) :=
    counts_behaviour interpreter.program (executed_executeWithin interpreter depth)
  have serves : Frame.Serves ⟨body, body.code.instrs.toArray, labels, 0, [], locals⟩ routine
      (routine.listeners store) (.ref handle :: args) :=
    ⟨generated, congrArg List.toArray generated.instrs_eq, labelled, rfl, holds⟩
  have stretch : Stretch body.code.instrs.toArray 0
      ((routine.listeners store).flatMap routine.callOf ++
        Routine.ending (routine.branches (routine.listeners store))) := by
    intro offset _
    rw [generated.instrs_eq, Routine.instrs_eq_ending, Nat.zero_add, List.getElem?_toArray]
  have quietPairs : ∀ pair ∈ routine.listeners store, pair.2.Accepts routine.signature →
      Quiet interpreter.program (behaviour interpreter.program (interpreter.executeWithin depth))
        (pair.2.target routine.signature) := by
    intro pair member accepts
    apply quiet pair
    rw [← Routine.filter_listeners]
    exact List.mem_filter.mpr ⟨member, by simpa using accepts⟩
  have completes : interpreter.complete _ _ world = _ := complete_of_calls counts kindsEq narrow
    quietPairs (fun _ member => member) serves stretch (Nat.zero_add _)
  rw [Routine.filter_listeners, Routine.branches_eq, Routine.filter_listeners] at completes
  rw [executeWithin, entered]
  exact completes

end Machine

namespace Routine

open Machine

/-- A generated routine runs its listeners in order.  Whatever the events that were added to it, of
distinct ranks, whatever their listeners and whatever the program, executing its body processes the
pairs of events and listeners that fit, events in increasing rank and listeners as they were
registered, unless a listener of the program returns a value or the parameters take more slots than
can be counted; `dispatch` says that each is called or reported once, and when processing stops. -/
theorem generate_runs_listeners (interpreter : Interpreter) (depth : Nat) (store : EventStore)
    (routine : Routine) (added : List (EventStore × EventId)) (handle : Handle)
    (args : List Value) (world : World) (unused : routine.events = [])
    (kept : ∀ entry ∈ added, (entry.1.get entry.2).rank = (store.get entry.2).rank)
    (distinct : (added.map fun entry => (store.get entry.2).rank).Nodup)
    (kindsEq : routine.signature.params.map Ty.kind? =
      (Value.ref handle :: args).map fun value => some value.kind)
    (narrow : routine.signature.totalSlots ≤ slotLimit)
    (quiet : ∀ entry ∈ added, ∀ listener ∈ (store.get entry.2).listeners,
      listener.Accepts routine.signature →
        Quiet interpreter.program
          (Interpreter.behaviour interpreter.program (interpreter.executeWithin depth))
          (listener.target routine.signature)) :
    ∃ events body,
      events.Perm (added.map Prod.snd) ∧
      events.Pairwise (fun first second =>
        Event.Precedes (store.get first).rank (store.get second).rank) ∧
      ((routine.addEvents added).generate store).1 = .ok body ∧
      interpreter.executeWithin (depth + 1) body (.ref handle :: args) world =
        dispatch interpreter
          (Interpreter.behaviour interpreter.program (interpreter.executeWithin depth))
          routine.signature routine.cancellable
          (routine.cancellable && !(store.pairs routine.signature events).isEmpty)
          (.ref handle) args (store.pairs routine.signature events) world := by
  have entriesEq : added.map entryOf =
      added.map fun entry => ((store.get entry.2).rank, entry.2) := by
    apply List.map_congr_left
    intro entry member
    rw [entryOf, kept entry member]
  have distinctEntries : ((routine.events ++ added.map entryOf).map Prod.fst).Nodup := by
    rw [unused, List.nil_append, entriesEq, List.map_map]
    exact distinct
  have ascending : Ascending routine.events := by
    rw [unused]
    exact .nil
  obtain ⟨perm, ordered⟩ := events_addEvents routine added ascending distinctEntries
  rw [unused, List.nil_append, entriesEq] at perm
  have idsPerm : (routine.addEvents added).eventIds.Perm (added.map Prod.snd) := by
    have mapped := perm.map Prod.snd
    rwa [List.map_map] at mapped
  have rankEq : ∀ entry ∈ (routine.addEvents added).events,
      entry.1 = (store.get entry.2).rank := by
    intro entry member
    obtain ⟨source, _, rfl⟩ := List.mem_map.mp (perm.mem_iff.mp member)
    rfl
  have quietPairs : ∀ pair ∈ store.pairs (routine.addEvents added).signature
      (routine.addEvents added).eventIds,
      Quiet interpreter.program
        (Interpreter.behaviour interpreter.program (interpreter.executeWithin depth))
        (pair.2.target (routine.addEvents added).signature) := by
    intro pair member
    rw [addEvents_signature] at member ⊢
    obtain ⟨id, idMember, pairMember⟩ := List.mem_flatMap.mp member
    obtain ⟨listener, listenerMember, rfl⟩ := List.mem_map.mp pairMember
    obtain ⟨registered, accepts⟩ := List.mem_filter.mp listenerMember
    obtain ⟨entry, entryMember, rfl⟩ := List.mem_map.mp (idsPerm.mem_iff.mp idMember)
    exact quiet entry entryMember listener registered (by simpa using accepts)
  obtain ⟨body, generated, executed⟩ := executeWithin_of_generate interpreter depth store
    (routine.addEvents added) handle args world (by simpa using kindsEq) (by simpa using narrow)
    quietPairs
  rw [addEvents_signature, addEvents_cancellable] at executed
  refine ⟨_, body, idsPerm, ?_, generated, executed⟩
  apply List.pairwise_map.mpr
  apply ordered.imp_of_mem
  intro first second firstMember secondMember precedes
  rwa [rankEq first firstMember, rankEq second secondMember] at precedes

/-- A routine without events whose listeners take the wrapper. -/
def bare (cancellable : Bool) : Routine :=
  ⟨⟨1⟩, "d", "p/P", "", 0, ⟨[Wrapper.plain.type], .void⟩, cancellable, []⟩

/-- The store of one event with the given listeners. -/
def storeOf (listeners : List Listener) : EventStore :=
  .ofList [{ Event.ofName "e" true 0 0 with listeners }]

/-- A world with a wrapper that may be cancelled. -/
def wrapped : World :=
  { World.fresh .standard .empty with
    heap := ⟨#[.wrapper ⟨.plain, "e", .null, true, false, none⟩], 0⟩ }

/-- A native method that cancels the wrapper that it is given. -/
def cancels : Native := fun _ args state =>
  match state.heap.cancel (args.headD .null) with
  | .error fault => (.error fault, state)
  | .ok heap => (.ok none, { state with heap })

/-- A program with a listener that cancels. -/
def canceller : Program := Program.empty.addNative ⟨"l/L", "stop", (bare true).signature⟩ cancels

/-- An event with a listener that is missing, one that cancels, and one behind it. -/
def cancelled : EventStore :=
  storeOf [⟨"x/X", "first", none⟩, ⟨"l/L", "stop", none⟩, ⟨"x/X", "last", none⟩]

theorem quiet_canceller (execute : Body → List Value → World → CallResult) (method : MethodRef) :
    Quiet canceller (Interpreter.behaviour canceller execute) method := by
  intro known present args world value
  have ownerEq : method.owner = "l/L" := by
    have slashed : Text.slashed "l/L" = "l/L" := by cbv
    simpa [Program.hasClass, canceller, Program.addNative, Program.empty, slashed] using known
  have noIntrinsic : Intrinsic.call? method args world = none := by
    rw [Intrinsic.call?, ownerEq, if_neg (by decide)]
    rfl
  have resolved : canceller.resolve? method = some (.native cancels) := by
    cases same : MethodKey.ofRef method ==
        MethodKey.ofRef ⟨"l/L", "stop", (bare true).signature⟩ with
    | true => rw [Program.resolve?, canceller, Program.addNative, List.lookup_cons, same]
    | false =>
        apply absurd _ present
        rw [Program.resolve?, canceller, Program.addNative, List.lookup_cons, same]
        rfl
  rw [Interpreter.behaviour, noIntrinsic, resolved]
  unfold cancels
  dsimp only
  split <;> simp

theorem generate_runs_listeners_cancelled :
    ∃ events body,
      events.Perm [⟨0⟩] ∧
      events.Pairwise (fun first second =>
        Event.Precedes (cancelled.get first).rank (cancelled.get second).rank) ∧
      (((bare true).addEvents [(cancelled, ⟨0⟩)]).generate cancelled).1 = .ok body ∧
      Interpreter.executeWithin ⟨canceller, .standard⟩ 1 body [.ref ⟨0⟩] wrapped =
        dispatch ⟨canceller, .standard⟩
          (Interpreter.behaviour canceller (Interpreter.executeWithin ⟨canceller, .standard⟩ 0))
          (bare true).signature true
          (true && !(cancelled.pairs (bare true).signature events).isEmpty) (.ref ⟨0⟩) []
          (cancelled.pairs (bare true).signature events) wrapped ∧
      (Interpreter.executeWithin ⟨canceller, .standard⟩ 1 body [.ref ⟨0⟩] wrapped).2.trace =
        #["onMissingClass(e, x/X, first)"] := by
  obtain ⟨events, body, perm, ordered, generated, executed⟩ :=
    generate_runs_listeners ⟨canceller, .standard⟩ 0 cancelled (bare true) [(cancelled, ⟨0⟩)] ⟨0⟩
      [] wrapped rfl (by simp) (by simp) rfl (by decide) fun _ _ _ _ _ => quiet_canceller _ _
  have traced : ((((bare true).addEvents [(cancelled, ⟨0⟩)]).generate cancelled).1.toOption.map
      fun body => (Interpreter.executeWithin ⟨canceller, .standard⟩ 1 body [.ref ⟨0⟩]
        wrapped).2.trace) = some #["onMissingClass(e, x/X, first)"] := by decide +kernel
  rw [generated] at traced
  exact ⟨events, body, perm, ordered, generated, executed, Option.some.inj traced⟩

/-- Whatever the program, every listener of a missing class is reported at a site where listeners do
not cancel. -/
def ReportsMissing (interpreter : Interpreter) (depth : Nat) (store : EventStore)
    (routine : Routine) (added : List (EventStore × EventId)) (handle : Handle)
    (args : List Value) (world : World) : Prop :=
  routine.events = [] → routine.cancellable = false →
  (∀ entry ∈ added, (entry.1.get entry.2).rank = (store.get entry.2).rank) →
  (added.map fun entry => (store.get entry.2).rank).Nodup →
  (routine.signature.params.map Ty.kind? =
    (Value.ref handle :: args).map fun value => some value.kind) →
  ∃ body, ((routine.addEvents added).generate store).1 = .ok body ∧
    ∀ pair ∈ store.pairs routine.signature (added.map Prod.snd),
      interpreter.program.hasClass (pair.2.target routine.signature).owner = false →
      s!"onMissingClass({pair.1.name}, {pair.2.owner}, {pair.2.name})" ∈
        (interpreter.executeWithin (depth + 1) body (.ref handle :: args) world).2.trace

/-- A program with one listener, which has the given code. -/
def programOf (instrs : List Instr) : Program :=
  Program.empty.addBody
    { Body.ofNames "l/L" "run" (bare false).signature .generated with
      code := .ofList instrs
      maxStack := 1 }

/-- An event with a listener of that program and one that is missing. -/
def missed : EventStore := storeOf [⟨"l/L", "run", none⟩, ⟨"x/X", "last", none⟩]

/-- A routine with one parameter more than there are slots. -/
def wide : Routine :=
  { bare false with
    signature := ⟨Wrapper.plain.type :: List.replicate slotLimit .int, .void⟩ }

/-- An event with a missing listener that takes nothing. -/
def lone : EventStore := storeOf [⟨"x/X", "last", some ⟨[], .void⟩⟩]

theorem not_reportsMissing {interpreter : Interpreter} {depth : Nat} {store : EventStore}
    {routine : Routine} {args : List Value} {pair : Event × Listener}
    (domain : routine.events = [] ∧ routine.cancellable = false)
    (kindsEq : routine.signature.params.map Ty.kind? =
      (Value.ref ⟨0⟩ :: args).map fun value => some value.kind)
    (member : pair ∈ store.pairs routine.signature [⟨0⟩])
    (missing : interpreter.program.hasClass (pair.2.target routine.signature).owner = false)
    (silent : ∀ body, ((routine.addEvents [(store, ⟨0⟩)]).generate store).1 = .ok body →
      (interpreter.executeWithin (depth + 1) body (.ref ⟨0⟩ :: args) wrapped).2.trace = #[]) :
    ¬ ReportsMissing interpreter depth store routine [(store, ⟨0⟩)] ⟨0⟩ args wrapped := by
  intro reports
  obtain ⟨body, generated, reported⟩ :=
    reports domain.1 domain.2 (by simp) (by simp) kindsEq
  have entry := reported pair member missing
  rw [silent body generated] at entry
  exact absurd entry (Array.not_mem_empty _)

theorem maxLocals_of_generate {routine : Routine} {store : EventStore} {body : Body}
    (generated : (routine.generate store).1 = .ok body) : body.maxLocals ≤ slotLimit := by
  unfold generate at generated
  dsimp only at generated
  split at generated
  · cases generated
  · cases generated
    exact addSlots_le _ _

/-- The exceptions are needed.  A listener is not reported if one before it fails, if one before it
leaves a value on the stack, if the budget is spent before, or if the arguments are too many. -/
theorem not_always_reportsMissing :
    ¬ ReportsMissing ⟨programOf [.const .null, .throw], .standard⟩ 1 missed (bare false)
      [(missed, ⟨0⟩)] ⟨0⟩ [] wrapped ∧
    ¬ ReportsMissing ⟨programOf [.const (.int 1), .ret (some .int)], .standard⟩ 1 missed
      (bare false) [(missed, ⟨0⟩)] ⟨0⟩ [] wrapped ∧
    ¬ ReportsMissing ⟨.empty, ⟨1, 256, 0⟩⟩ 0 missed (bare false) [(missed, ⟨0⟩)] ⟨0⟩ []
      wrapped ∧
    ¬ ReportsMissing ⟨.empty, .standard⟩ 0 lone wide [(lone, ⟨0⟩)] ⟨0⟩
      (List.replicate slotLimit (.int 0)) wrapped := by
  have silent : ∀ (interpreter : Interpreter) (depth : Nat),
      ((((bare false).addEvents [(missed, ⟨0⟩)]).generate missed).1.toOption.map fun body =>
        (interpreter.executeWithin (depth + 1) body [.ref ⟨0⟩] wrapped).2.trace) = some #[] →
      ∀ body, (((bare false).addEvents [(missed, ⟨0⟩)]).generate missed).1 = .ok body →
        (interpreter.executeWithin (depth + 1) body [.ref ⟨0⟩] wrapped).2.trace = #[] := by
    intro interpreter depth traced body generated
    rw [generated] at traced
    exact Option.some.inj traced
  have last : ((missed.get ⟨0⟩, ⟨"x/X", "last", none⟩) : Event × Listener) ∈
      missed.pairs (bare false).signature [⟨0⟩] := by decide +kernel
  refine ⟨?_, ?_, ?_, ?_⟩
  · exact not_reportsMissing ⟨rfl, rfl⟩ rfl last (by decide +kernel)
      (silent _ _ (by decide +kernel))
  · exact not_reportsMissing ⟨rfl, rfl⟩ rfl last (by decide +kernel)
      (silent _ _ (by decide +kernel))
  · exact not_reportsMissing ⟨rfl, rfl⟩ rfl last (by decide +kernel)
      (silent _ _ (by decide +kernel))
  · have accepted : ((lone.get ⟨0⟩, ⟨"x/X", "last", some ⟨[], .void⟩⟩) : Event × Listener) ∈
        lone.pairs wide.signature [⟨0⟩] := by
      decide +kernel
    have kindsEq : wide.signature.params.map Ty.kind? =
        (Value.ref ⟨0⟩ :: List.replicate slotLimit (.int 0)).map fun value => some value.kind := by
      rw [List.map_cons, List.map_replicate]
      change List.map Ty.kind? (Wrapper.plain.type :: List.replicate slotLimit .int) = _
      rw [List.map_cons, List.map_replicate]
      rfl
    have slots : ∀ count, ((Value.ref ⟨0⟩ :: List.replicate count (.int 0)).map Value.slots).sum =
        1 + count := by
      intro count
      have number : (Value.int 0).slots = 1 := rfl
      rw [List.map_cons, List.map_replicate, List.sum_cons, List.sum_replicate_nat, number,
        Nat.mul_one]
      rfl
    apply not_reportsMissing ⟨rfl, rfl⟩ kindsEq accepted (by decide +kernel)
    intro body generated
    have few : body.maxLocals ≤ slotLimit := maxLocals_of_generate generated
    rw [Interpreter.executeWithin]
    cases entered : Frame.enter body (.ref ⟨0⟩ :: List.replicate slotLimit (.int 0)) with
    | error fault => rfl
    | ok frame =>
        have fits := Frame.fits_of_enter entered
        rw [slots] at fits
        omega

end Routine

end Weaver
