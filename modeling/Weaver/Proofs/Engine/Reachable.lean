import Weaver.Proofs.Engine.Growth
import Weaver.Proofs.Engine.Weaving

/-!
# The engines that a host can reach

A host defines events, registers what it wants, lends events to bodies of its own, injects by hand
and has bodies transformed, in any order and with any outcome.  Whatever it does, the events stay
orderly and the arena stays sound.
-/

namespace Weaver

theorem EventStore.size_keep (store : EventStore) (event : Event) :
    (store.keep event).2.events.size = store.events.size + 1 := Array.size_push _

theorem EventStore.Orderly.keep {store : EventStore} (orderly : store.Orderly) (event : Event) :
    (store.keep event).2.Orderly := by
  have old : ∀ id ∈ store.registered, (store.keep event).2.get id = store.get id :=
    fun id member => get_keep store event (orderly.inside id member)
  constructor
  case inside =>
    intro id member
    rw [size_keep]
    exact Nat.lt_succ_of_lt (orderly.inside id member)
  case keyed =>
    intro entry member
    rw [old _ (List.mem_map.mpr ⟨entry, member, rfl⟩)]
    exact orderly.keyed entry member
  case below =>
    intro id member
    rw [old id member]
    exact orderly.below id member
  case orders =>
    intro first firstIn second secondIn
    rw [old first firstIn, old second secondIn]
    exact orderly.orders first firstIn second secondIn
  case keys =>
    intro first firstIn second secondIn
    rw [old first firstIn, old second secondIn]
    exact orderly.keys first firstIn second secondIn

namespace Loom

variable {loom after : Loom} {id : EventId} {routine : RoutineId} {index : Nat}
  {cancellable : Bool}

theorem invariant_agrees (store : EventStore) (among : List EventId) :
    Invariant among fun events _ _ => store.Agrees events where
  allocate := fun _ _ _ _ agrees => agrees
  addEvent := fun _ _ agrees => agrees
  discard := fun agrees => agrees
  count := fun _ agrees => agrees.trans (EventStore.agrees_put ⟨rfl, rfl, rfl, rfl⟩)

theorem agrees_attach (loom : Loom) (id : EventId) :
    loom.events.Agrees (loom.attach id).2.events := by
  cases present : (loom.events.get id).attachment with
  | none =>
      rw [attach_of_idle present]
      exact EventStore.agrees_put ⟨rfl, rfl, rfl, rfl⟩
  | some _ =>
      rw [attach_of_attached present]
      exact .refl _

theorem agrees_detach (loom : Loom) (id : EventId) :
    loom.events.Agrees (loom.detach id).2.events := by
  cases present : (loom.events.get id).attachment with
  | none =>
      rw [detach_of_idle present]
      exact .refl _
  | some _ =>
      rw [detach_of_attached present]
      exact EventStore.agrees_put ⟨rfl, rfl, rfl, rfl⟩

end Loom

theorem Arena.Sound.addEvent {arena : Arena} (sound : arena.Sound) {id : RoutineId}
    (known : arena.Knows id) (store : EventStore) (event : EventId) :
    (arena.put ((arena.get id).addEvent store event)).Sound :=
  sound.put known (sound.numbered id known) rfl rfl

namespace Engine

/-- What a host does apart from injections: it defines and registers, and lends its events. -/
inductive Prepares (engine : Engine) : Engine → Prop
  | define {next : Engine} {name : String} {cancellable : Bool} {priority : Int}
      {result : Except Error EventId}
      (defined : engine.defineEvent name cancellable priority = (result, next)) :
      Prepares engine next
  /-- The host has an event of its own that it does not register. -/
  | keep (event : Event) : Prepares engine { engine with events := (engine.events.keep event).2 }
  | listen (event : EventId) (listener : Listener) : Prepares engine (engine.listen event listener)
  | register {next : Engine} {event : EventId} {target : Target} {locator : Locator}
      {result : Except Error Unit}
      (registered : engine.registerInjection event target locator = (result, next)) :
      Prepares engine next
  | redirect (target : Target) (handler : Listener) (kind : RedirectKind) (earliest : Bool) :
      Prepares engine (engine.registerRedirect target handler kind earliest).2
  | attach {next : Engine} {id : EventId} {body : Body} {result : Except Error Unit}
      (attached : engine.attach id body = (result, next)) : Prepares engine next
  | detach {next : Engine} {id : EventId} {result : Except Error Unit}
      (detached : engine.detach id = (result, next)) : Prepares engine next
  | note (entries : List Diagnostic) : Prepares engine (engine.note entries)

/-- What a host does with an engine.  A routine is joined or gets an event only if the arena gave it
out. -/
inductive Operates (engine : Engine) : Engine → Prop
  | prepare {next : Engine} (prepares : engine.Prepares next) : Operates engine next
  | allocate (wrapper : Wrapper) (body : Body) (site : Nat) (cancellable : Bool) :
      Operates engine (engine.allocate wrapper body site cancellable).2
  | addEvent {routine : RoutineId} (known : engine.proxies.Knows routine) (id : EventId) :
      Operates engine (engine.addEvent routine id)
  | discard (routine : RoutineId) : Operates engine (engine.discard routine)
  | inject (id : EventId) (body : Body) (index : Nat) (cancellable : Bool) :
      Operates engine (engine.inject id body index cancellable).2.1
  | join {next : Engine} {routine : RoutineId} {id : EventId} {result : Except Error Unit}
      (known : engine.proxies.Knows routine) (joined : engine.join routine id = (result, next)) :
      Operates engine next
  | transform (body : Body) : Operates engine (engine.transform body).2.1

/-- The engines that a host can reach. -/
inductive Reachable : Engine → Prop
  | fresh (settings : Settings) : Reachable (.fresh settings)
  | step {engine next : Engine} (reachable : Reachable engine) (operates : engine.Operates next) :
      Reachable next

variable {engine next : Engine}

theorem Prepares.proxies_eq (prepares : engine.Prepares next) : next.proxies = engine.proxies := by
  cases prepares with
  | define defined =>
      cases defined
      rfl
  | keep event => rfl
  | listen event listener => rfl
  | register registered =>
      obtain ⟨_, _, _, rfl⟩ | ⟨_, _, rfl⟩ := registerInjection_cases registered <;> rfl
  | redirect target handler kind earliest =>
      unfold registerRedirect
      dsimp only
      split <;> rfl
  | attach attached =>
      cases attached
      rfl
  | detach detached =>
      cases detached
      rfl
  | note entries => rfl

theorem Prepares.orderly (prepares : engine.Prepares next) (orderly : engine.Orderly) :
    next.Orderly := by
  cases prepares with
  | define defined => exact orderly.define defined
  | keep event => exact ⟨orderly.events.keep event, orderly.registered⟩
  | listen event listener => exact orderly.listen event listener
  | register registered => exact orderly.register registered
  | redirect target handler kind earliest =>
      unfold registerRedirect
      dsimp only
      split <;> exact ⟨orderly.events, orderly.registered⟩
  | @attach _ id body _ attached =>
      obtain rfl := congrArg Prod.snd attached
      exact orderly.of_agrees ((engine.loom body).agrees_attach id) rfl
  | @detach _ id _ detached =>
      obtain rfl := congrArg Prod.snd detached
      exact orderly.of_agrees ((engine.loom default).agrees_detach id) rfl
  | note entries => exact ⟨orderly.events, orderly.registered⟩

/-- The events are orderly and the arena is sound. -/
structure Coherent (engine : Engine) : Prop where
  orderly : engine.Orderly
  sound : engine.proxies.Sound

theorem coherent_fresh (settings : Settings) : (fresh settings).Coherent :=
  ⟨orderly_fresh settings, Arena.sound_ofSettings settings⟩

theorem Prepares.coherent (prepares : engine.Prepares next) (coherent : engine.Coherent) :
    next.Coherent where
  orderly := prepares.orderly coherent.orderly
  sound := prepares.proxies_eq ▸ coherent.sound

/-- The routines that a transformation has for a body, none if it fails. -/
def routinesOf (result : Except Error TransformReport) : List RoutineId :=
  (result.toOption.map TransformReport.routines).getD []

theorem Orderly.get?_ne_none (orderly : engine.Orderly) {body : Body} {id : EventId}
    (member : id ∈ engine.eventsOf (engine.siteMap body)) : engine.events.get? id ≠ none := by
  have inside := orderly.events.inside id (orderly.registered_of_mem_eventsOf member)
  rw [EventStore.get?, Array.getElem?_eq_getElem inside]
  exact Option.some_ne_none _

/-- A transformation adds to the arena the routines that it reports, and none if it fails. -/
theorem Coherent.grown (coherent : engine.Coherent) {body woven : Body}
    {result : Except Error TransformReport}
    (done : engine.transform body = (result, next, woven)) :
    engine.proxies.Grown (routinesOf result) next.proxies := by
  have among : ∀ entry ∈ engine.siteMap body, ∀ id ∈ entry.2,
      id ∈ engine.eventsOf (engine.siteMap body) :=
    fun entry member id held => engine.mem_eventsOf_iff.mpr ⟨entry, member, held⟩
  have grown := Loom.invariant_grown coherent.sound (engine.eventsOf (engine.siteMap body))
  have start := coherent.sound.grown_nil
  cases transforms_of_transform done with
  | bare => exact start
  | refused => exact start
  | woven _ _ _ weft => exact grown.weave among start weft
  | failed _ _ _ weft => exact (grown.weave among start weft).discardAll coherent.sound
  | unreleased _ _ absent _ =>
      obtain ⟨id, member, missing⟩ := absent
      exact absurd missing (coherent.orderly.get?_ne_none member)

theorem Coherent.transform (coherent : engine.Coherent) {body woven : Body}
    {result : Except Error TransformReport}
    (done : engine.transform body = (result, next, woven)) : next.Coherent where
  orderly := coherent.orderly.transform done
  sound := (coherent.grown done).sound

/-- Every operation of a host leaves the events orderly and the arena sound. -/
theorem Operates.coherent (operates : engine.Operates next) (coherent : engine.Coherent) :
    next.Coherent := by
  obtain ⟨orderly, sound⟩ := coherent
  cases operates with
  | prepare prepares => exact prepares.coherent ⟨orderly, sound⟩
  | allocate wrapper body site cancellable =>
      exact ⟨⟨orderly.events, orderly.registered⟩,
        sound.allocate body wrapper site cancellable⟩
  | addEvent known id =>
      exact ⟨⟨orderly.events, orderly.registered⟩, sound.addEvent known engine.events id⟩
  | discard routine => exact ⟨⟨orderly.events, orderly.registered⟩, sound.discard routine⟩
  | inject id body index cancellable =>
      have alone : id ∈ [id] := List.mem_singleton_self id
      have injected : (engine.loom body).inject id index cancellable =
          (((engine.loom body).inject id index cancellable).1,
            ((engine.loom body).inject id index cancellable).2) := rfl
      have both := (Loom.invariant_agrees engine.events [id]).and (Loom.invariant_grown sound [id])
      obtain ⟨agrees, grown⟩ := both.inject alone ⟨.refl _, sound.grown_nil⟩ injected
      exact ⟨orderly.of_agrees agrees rfl, grown.sound⟩
  | @join _ routine id _ known joined =>
      obtain rfl := congrArg Prod.snd joined
      rcases once : (engine.loom default).join routine id with ⟨_ | _, after⟩
      · rw [Engine.join, once, Loom.eq_of_join_error once]
        exact ⟨orderly, sound⟩
      · rw [Engine.join, once, Loom.eq_of_join once]
        exact ⟨orderly.of_agrees (EventStore.agrees_put ⟨rfl, rfl, rfl, rfl⟩) rfl,
          sound.addEvent known engine.events _⟩
  | transform body => exact Coherent.transform ⟨orderly, sound⟩ rfl

theorem Reachable.coherent (reachable : engine.Reachable) : engine.Coherent := by
  induction reachable with
  | fresh settings => exact coherent_fresh settings
  | step _ operates ih => exact operates.coherent ih

theorem Hosted.reachable (hosted : engine.Hosted) : engine.Reachable := by
  induction hosted with
  | fresh settings => exact .fresh settings
  | define _ defined ih => exact .step ih (.prepare (.define defined))
  | listen _ listened ih =>
      obtain ⟨_, _, _, rfl⟩ | ⟨_, _, rfl⟩ := addListener_cases listened
      · exact ih
      · exact .step ih (.prepare (.listen _ _))
  | register _ registered ih => exact .step ih (.prepare (.register registered))
  | @transform engine _ body _ _ _ transformed ih =>
      have operates : engine.Operates (engine.transform body).2.1 := .transform body
      rw [transformed] at operates
      exact .step ih operates

end Engine

end Weaver
