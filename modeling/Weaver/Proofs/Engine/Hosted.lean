import Mathlib.Data.List.Sort
import Weaver.Proofs.Dispatch.Order
import Weaver.Proofs.Engine.Lending

/-!
# The events of a host

Whatever a host defines and registers, no two registered events have the same name or the same place
in the order of their creation, and what is registered for injection is a registered event.  So the
order of registered events is that of their ranks, and no two of them have the same rank.
-/

namespace Weaver

/-- The same event with other listeners or another attachment. -/
structure Event.Agrees (before after : Event) : Prop where
  name_eq : after.name = before.name
  cancellable_eq : after.cancellable = before.cancellable
  priority_eq : after.priority = before.priority
  order_eq : after.order = before.order

namespace Event.Agrees

variable {before after : Event}

theorem refl (event : Event) : Agrees event event := ⟨rfl, rfl, rfl, rfl⟩

theorem trans {later : Event} (first : Agrees before after) (second : Agrees after later) :
    Agrees before later where
  name_eq := second.name_eq.trans first.name_eq
  cancellable_eq := second.cancellable_eq.trans first.cancellable_eq
  priority_eq := second.priority_eq.trans first.priority_eq
  order_eq := second.order_eq.trans first.order_eq

theorem key_eq (agrees : Agrees before after) : after.key = before.key := by
  rw [key, agrees.name_eq]
  rfl

theorem rank_eq (agrees : Agrees before after) : after.rank = before.rank := by
  rw [rank, agrees.priority_eq, agrees.order_eq]
  rfl

end Event.Agrees

namespace EventStore

variable {store after : EventStore} {id other : EventId} {event : Event}

theorem get_put (store : EventStore) (id : EventId) (event : Event) (other : EventId) :
    (store.put id event).get other =
      if other = id ∧ id.index < store.events.size then event else store.get other := by
  have sameIndex : id.index = other.index ↔ other = id := by
    rw [EventId.mk.injEq]
    exact eq_comm
  unfold get get? put
  rw [Array.getElem?_setIfInBounds]
  by_cases same : other = id
  · subst same
    by_cases inside : other.index < store.events.size <;> simp [inside]
  · have away : id.index ≠ other.index := fun equal => same (sameIndex.mp equal)
    simp [away, same]

theorem size_put (store : EventStore) (id : EventId) (event : Event) :
    (store.put id event).events.size = store.events.size := Array.size_setIfInBounds

/-- The same events with other listeners or other attachments. -/
structure Agrees (before after : EventStore) : Prop where
  registry_eq : after.registry = before.registry
  size_eq : after.events.size = before.events.size
  get : ∀ id, Event.Agrees (before.get id) (after.get id)

theorem Agrees.registered_eq (agrees : Agrees store after) :
    after.registered = store.registered := by
  rw [registered, agrees.registry_eq]
  rfl

theorem Agrees.refl (store : EventStore) : Agrees store store :=
  ⟨rfl, rfl, fun _ => .refl _⟩

theorem Agrees.trans {later : EventStore} (first : Agrees store after)
    (second : Agrees after later) : Agrees store later where
  registry_eq := second.registry_eq.trans first.registry_eq
  size_eq := second.size_eq.trans first.size_eq
  get := fun id => (first.get id).trans (second.get id)

theorem agrees_put (agrees : Event.Agrees (store.get id) event) :
    Agrees store (store.put id event) where
  registry_eq := rfl
  size_eq := size_put store id event
  get := by
    intro other
    rw [get_put]
    split
    · rename_i here
      rw [here.1]
      exact agrees
    · exact .refl _

/-- A store in which the registry knows every registered event by its name, and registered events
differ in their names and in their order. -/
structure Orderly (store : EventStore) : Prop where
  inside : ∀ id ∈ store.registered, id.index < store.events.size
  keyed : ∀ entry ∈ store.registry.entries, (store.get entry.2).key = entry.1
  below : ∀ id ∈ store.registered, (store.get id).order < store.registry.nextOrder
  orders : ∀ first ∈ store.registered, ∀ second ∈ store.registered,
    (store.get first).order = (store.get second).order → first = second
  keys : ∀ first ∈ store.registered, ∀ second ∈ store.registered,
    (store.get first).key = (store.get second).key → first = second

theorem orderly_empty : Orderly empty :=
  ⟨List.forall_mem_nil _, List.forall_mem_nil _, List.forall_mem_nil _, List.forall_mem_nil _,
    List.forall_mem_nil _⟩

theorem Orderly.of_agrees (orderly : store.Orderly) (agrees : Agrees store after) :
    after.Orderly where
  inside := by
    rw [agrees.registered_eq, agrees.size_eq]
    exact orderly.inside
  keyed := by
    rw [agrees.registry_eq]
    exact fun entry member => (agrees.get entry.2).key_eq.trans (orderly.keyed entry member)
  below := by
    intro id
    rw [agrees.registered_eq, agrees.registry_eq, (agrees.get id).order_eq]
    exact orderly.below id
  orders := by
    rw [agrees.registered_eq]
    intro first firstIn second secondIn
    rw [(agrees.get first).order_eq, (agrees.get second).order_eq]
    exact orderly.orders first firstIn second secondIn
  keys := by
    rw [agrees.registered_eq]
    intro first firstIn second secondIn
    rw [(agrees.get first).key_eq, (agrees.get second).key_eq]
    exact orderly.keys first firstIn second secondIn

theorem exists_entry (member : id ∈ store.registered) :
    ∃ key, (key, id) ∈ store.registry.entries := by
  obtain ⟨⟨key, _⟩, entry, rfl⟩ := List.mem_map.mp member
  exact ⟨key, entry⟩

theorem mem_registered_of_find? {name : String} (found : store.find? name = some id) :
    id ∈ store.registered := by
  obtain ⟨before, behind, entriesEq, _⟩ := List.lookup_eq_some_iff.mp found
  rw [registered, entriesEq]
  exact List.mem_map.mpr ⟨_, List.mem_append_right _ List.mem_cons_self, rfl⟩

/-- The event that look-up finds is the registered one of the name. -/
theorem Orderly.find?_eq_some_iff (orderly : store.Orderly) {name : String} :
    store.find? name = some id ↔
      id ∈ store.registered ∧ (store.get id).key = Text.folded name := by
  have sound : ∀ {other}, store.find? name = some other →
      other ∈ store.registered ∧ (store.get other).key = Text.folded name := by
    intro other found
    refine ⟨mem_registered_of_find? found, ?_⟩
    obtain ⟨before, behind, entriesEq, _⟩ := List.lookup_eq_some_iff.mp found
    exact orderly.keyed (_, other) (entriesEq ▸ List.mem_append_right _ List.mem_cons_self)
  refine ⟨sound, ?_⟩
  rintro ⟨member, keyEq⟩
  obtain ⟨key, entry⟩ := exists_entry member
  cases found : store.find? name with
  | none =>
      have differs := List.lookup_eq_none_iff.mp found _ entry
      rw [← orderly.keyed _ entry, keyEq] at differs
      simp at differs
  | some other =>
      obtain ⟨otherIn, otherKey⟩ := sound found
      rw [orderly.keys other otherIn id member (otherKey.trans keyEq.symm)]

theorem get_keep (store : EventStore) (event : Event) (inside : other.index < store.events.size) :
    (store.keep event).2.get other = store.get other := by
  simp [get, get?, keep, Array.getElem?_push, inside.ne]

theorem get_keep_self (store : EventStore) (event : Event) :
    (store.keep event).2.get (store.keep event).1 = event := by
  simp [get, get?, keep]

/-- The store with one more registered event. -/
def enroll (store : EventStore) (event : Event) : EventStore :=
  { (store.keep event).2 with registry := store.registry.add event.key (store.keep event).1 }

theorem registered_enroll (store : EventStore) (event : Event) :
    (store.enroll event).registered = store.registered ++ [(store.keep event).1] :=
  List.map_append

/-- An event of a new name that is numbered by the counter leaves the store orderly. -/
theorem Orderly.enroll (orderly : store.Orderly) (last : event.order = store.registry.nextOrder)
    (newKey : ∀ known ∈ store.registered, (store.get known).key ≠ event.key) :
    (store.enroll event).Orderly := by
  have self : (store.enroll event).get (store.keep event).1 = event := get_keep_self store event
  have old : ∀ known ∈ store.registered, (store.enroll event).get known = store.get known :=
    fun known member => get_keep store event (orderly.inside known member)
  have cases_of_mem : ∀ id ∈ (store.enroll event).registered,
      id ∈ store.registered ∨ id = (store.keep event).1 := by
    intro id member
    rw [registered_enroll] at member
    exact (List.mem_append.mp member).imp_right List.mem_singleton.mp
  have nextEq : (store.enroll event).registry.nextOrder = store.registry.nextOrder + 1 := rfl
  have sizeEq : (store.enroll event).events.size = store.events.size + 1 := Array.size_push _
  constructor
  case inside =>
    intro id member
    rw [sizeEq]
    rcases cases_of_mem id member with known | rfl
    · exact Nat.lt_succ_of_lt (orderly.inside id known)
    · exact Nat.lt_succ_self _
  case keyed =>
    intro entry member
    rcases List.mem_append.mp member with known | added
    · rw [old _ (List.mem_map.mpr ⟨entry, known, rfl⟩)]
      exact orderly.keyed entry known
    · rw [List.mem_singleton.mp added]
      exact congrArg Event.key self
  case below =>
    intro id member
    rw [nextEq]
    rcases cases_of_mem id member with known | rfl
    · rw [old id known]
      exact Nat.lt_succ_of_lt (orderly.below id known)
    · rw [self, last]
      exact Nat.lt_succ_self _
  case orders =>
    intro first firstIn second secondIn same
    rcases cases_of_mem first firstIn with firstOld | rfl <;>
      rcases cases_of_mem second secondIn with secondOld | rfl
    · rw [old first firstOld, old second secondOld] at same
      exact orderly.orders first firstOld second secondOld same
    · rw [old first firstOld, self, last] at same
      exact absurd same (orderly.below first firstOld).ne
    · rw [old second secondOld, self, last] at same
      exact absurd same.symm (orderly.below second secondOld).ne
    · rfl
  case keys =>
    intro first firstIn second secondIn same
    rcases cases_of_mem first firstIn with firstOld | rfl <;>
      rcases cases_of_mem second secondIn with secondOld | rfl
    · rw [old first firstOld, old second secondOld] at same
      exact orderly.keys first firstOld second secondOld same
    · rw [old first firstOld, self] at same
      exact absurd same (newKey first firstOld)
    · rw [old second secondOld, self] at same
      exact absurd same.symm (newKey second secondOld)
    · rfl

/-- A definition leaves the store as it is, or registers an event of a name that was not found. -/
theorem define_cases {name : String} {cancellable : Bool} {priority : Int}
    {result : Except Error EventId}
    (defined : store.define name cancellable priority = (result, after)) :
    after = store ∨ store.find? name = none ∧
      after = store.enroll (.ofName name cancellable priority store.registry.nextOrder) := by
  unfold EventStore.define at defined
  split at defined
  · cases defined
    exact .inl rfl
  · split at defined
    · dsimp only at defined
      split at defined <;> cases defined <;> exact .inl rfl
    · rename_i unknown
      cases defined
      exact .inr ⟨unknown, rfl⟩

/-- Definitions keep the store orderly, and what is registered is registered from then on. -/
theorem Orderly.define (orderly : store.Orderly) {name : String} {cancellable : Bool}
    {priority : Int} {result : Except Error EventId}
    (defined : store.define name cancellable priority = (result, after)) :
    after.Orderly ∧ ∀ known ∈ store.registered, known ∈ after.registered := by
  rcases define_cases defined with rfl | ⟨unknown, rfl⟩
  · exact ⟨orderly, fun _ member => member⟩
  · refine ⟨orderly.enroll rfl fun known member same => ?_, fun known member => ?_⟩
    · have found : store.find? name = some known := orderly.find?_eq_some_iff.mpr ⟨member, same⟩
      rw [unknown] at found
      cases found
    · rw [registered_enroll]
      exact List.mem_append_left _ member

theorem mem_registered_of_owns (owned : store.owns id = true) : id ∈ store.registered :=
  mem_registered_of_find? (decide_eq_true_eq.mp owned)

theorem Orderly.owns_iff (orderly : store.Orderly) :
    store.owns id = true ↔ id ∈ store.registered := by
  constructor
  · exact mem_registered_of_owns
  · intro member
    exact decide_eq_true (orderly.find?_eq_some_iff.mpr ⟨member, rfl⟩)

/-- Registered events that differ are ranked one before the other. -/
theorem Orderly.precedes_or_precedes (orderly : store.Orderly) {first second : EventId}
    (firstIn : first ∈ store.registered) (secondIn : second ∈ store.registered)
    (differ : first ≠ second) :
    Event.Precedes (store.get first).rank (store.get second).rank ∨
      Event.Precedes (store.get second).rank (store.get first).rank := by
  have orderNe : (store.get first).order ≠ (store.get second).order :=
    fun same => differ (orderly.orders first firstIn second secondIn same)
  unfold Event.Precedes Event.rank
  dsimp only
  omega

/-- The order of registered events is that of their ranks. -/
theorem Orderly.le_eq (orderly : store.Orderly) {first second : EventId}
    (firstIn : first ∈ store.registered) (secondIn : second ∈ store.registered) :
    (store.get first).le (store.get second) =
      (Event.compareRank (store.get first).rank (store.get second).rank).isLE := by
  unfold Event.le Event.compare
  by_cases same : first = second
  · subst same
    rw [Event.compareRank_eq_eq_iff.mpr rfl]
    simp [Event.same]
  · have keyNe : (store.get first).same (store.get second) = false :=
      decide_eq_false fun equal => same (orderly.keys first firstIn second secondIn equal)
    rw [keyNe, if_neg Bool.false_ne_true]
    rcases orderly.precedes_or_precedes firstIn secondIn same with before | behind
    · rw [Event.compareRank_eq_lt_iff.mpr before]
      rfl
    · rw [Event.compareRank_eq_gt_iff.mpr behind]
      rfl

end EventStore

theorem Event.isLE_compareRank_iff {first second : Int × Nat} :
    (compareRank first second).isLE = true ↔ ¬ Precedes second first := by
  rw [← compareRank_eq_gt_iff]
  cases compareRank first second <;> simp

namespace EventStore

variable {store : EventStore} {ids others : List EventId}

/-- Sorting puts registered events into increasing rank, whatever their order was. -/
theorem Orderly.sort (orderly : store.Orderly) (registered : ∀ id ∈ ids, id ∈ store.registered)
    (once : ids.Nodup) :
    (store.sort ids).Perm ids ∧
      (store.sort ids).Pairwise fun first second =>
        Event.Precedes (store.get first).rank (store.get second).rank := by
  have perm : (store.sort ids).Perm ids := List.mergeSort_perm _ _
  have sortEq : store.sort ids = ids.mergeSort fun first second =>
      (Event.compareRank (store.get first).rank (store.get second).rank).isLE := by
    have mapped : (store.sort ids).map id = (ids.map id).mergeSort fun first second =>
        (Event.compareRank (store.get first).rank (store.get second).rank).isLE :=
      List.map_mergeSort fun first firstIn second secondIn =>
        orderly.le_eq (registered first firstIn) (registered second secondIn)
    rwa [List.map_id, List.map_id] at mapped
  refine ⟨perm, ?_⟩
  have ranked : (store.sort ids).Pairwise fun first second =>
      (Event.compareRank (store.get first).rank (store.get second).rank).isLE = true := by
    rw [sortEq]
    apply List.pairwise_mergeSort
    · intro first second third
      simp only [Event.isLE_compareRank_iff, Event.Precedes]
      omega
    · intro first second
      simp only [Bool.or_eq_true, Event.isLE_compareRank_iff, Event.Precedes]
      omega
  apply (ranked.and (perm.nodup_iff.mpr once)).imp_of_mem
  rintro first second firstIn secondIn ⟨notBehind, differ⟩
  rcases orderly.precedes_or_precedes (registered first (perm.mem_iff.mp firstIn))
      (registered second (perm.mem_iff.mp secondIn)) differ with before | behind
  · exact before
  · exact absurd behind (Event.isLE_compareRank_iff.mp notBehind)

/-- However registered events are listed, they are sorted into the same list. -/
theorem Orderly.sort_eq_of_perm (orderly : store.Orderly)
    (registered : ∀ id ∈ ids, id ∈ store.registered) (once : ids.Nodup) (perm : ids.Perm others) :
    store.sort ids = store.sort others := by
  obtain ⟨permOne, ascendingOne⟩ := orderly.sort registered once
  obtain ⟨permOther, ascendingOther⟩ := orderly.sort
    (fun id member => registered id (perm.mem_iff.mpr member)) (perm.nodup_iff.mp once)
  have sameMembers := permOne.trans (perm.trans permOther.symm)
  refine sameMembers.eq_of_pairwise ?_ ascendingOne ascendingOther
  intro first second _ _ front back
  exact absurd (front.trans back) (Event.Precedes.irrefl _)

end EventStore

namespace Engine

/-- The engines of hosts: what definitions of events, listeners, registrations and transformed bodies
make of an engine in which nothing is registered, be they accepted or refused. -/
inductive Hosted : Engine → Prop
  | fresh (settings : Settings) : Hosted (.fresh settings)
  | define {engine next : Engine} {name : String} {cancellable : Bool} {priority : Int}
      {result : Except Error EventId} (hosted : Hosted engine)
      (defined : engine.defineEvent name cancellable priority = (result, next)) : Hosted next
  | listen {engine next : Engine} {event : EventId} {listener : Listener}
      {result : Except Error Unit} (hosted : Hosted engine)
      (listened : engine.addListener event listener = (result, next)) : Hosted next
  | register {engine next : Engine} {event : EventId} {target : Target} {locator : Locator}
      {result : Except Error Unit} (hosted : Hosted engine)
      (registered : engine.registerInjection event target locator = (result, next)) : Hosted next
  | transform {engine next : Engine} {body woven : Body} {result : Except Error TransformReport}
      (hosted : Hosted engine) (transformed : engine.transform body = (result, next, woven)) :
      Hosted next

theorem owns_of_ensureOwned {engine : Engine} {event : EventId}
    (owned : engine.ensureOwned event = .ok ()) : engine.events.owns event = true := by
  unfold ensureOwned at owned
  split at owned
  · assumption
  · cases owned

/-- A listener is added to a registered event; for another event the engine stays. -/
theorem addListener_cases {engine next : Engine} {event : EventId} {listener : Listener}
    {result : Except Error Unit} (listened : engine.addListener event listener = (result, next)) :
    (∃ error, engine.ensureOwned event = .error error ∧ result = .error error ∧ next = engine) ∨
      engine.ensureOwned event = .ok () ∧ result = .ok () ∧ next = engine.listen event listener := by
  unfold addListener at listened
  cases owned : engine.ensureOwned event with
  | error error =>
      rw [owned] at listened
      cases listened
      exact .inl ⟨error, rfl, rfl, rfl⟩
  | ok _ =>
      rw [owned] at listened
      cases listened
      exact .inr ⟨rfl, rfl, rfl⟩

/-- An injection of a registered event is registered; for another event the engine stays. -/
theorem registerInjection_cases {engine next : Engine} {event : EventId} {target : Target}
    {locator : Locator} {result : Except Error Unit}
    (registered : engine.registerInjection event target locator = (result, next)) :
    (∃ error, engine.ensureOwned event = .error error ∧ result = .error error ∧ next = engine) ∨
      engine.ensureOwned event = .ok () ∧ result = .ok () ∧
        next = { engine with
          targets := engine.targets.register target
          injections := engine.injections ++ [⟨event, target, locator⟩] } := by
  unfold registerInjection at registered
  cases owned : engine.ensureOwned event with
  | error error =>
      rw [owned] at registered
      cases registered
      exact .inl ⟨error, rfl, rfl, rfl⟩
  | ok _ =>
      rw [owned] at registered
      cases registered
      exact .inr ⟨rfl, rfl, rfl⟩

/-- The events of an engine are orderly, and those that are to be injected are registered. -/
structure Orderly (engine : Engine) : Prop where
  events : engine.events.Orderly
  registered : ∀ injection ∈ engine.injections, injection.event ∈ engine.events.registered

theorem orderly_fresh (settings : Settings) : (fresh settings).Orderly :=
  ⟨EventStore.orderly_empty, List.forall_mem_nil _⟩

namespace Orderly

variable {engine next : Engine}

theorem of_agrees (orderly : engine.Orderly) (agrees : engine.events.Agrees next.events)
    (same : next.injections = engine.injections) : next.Orderly where
  events := orderly.events.of_agrees agrees
  registered := by
    rw [same, agrees.registered_eq]
    exact orderly.registered

theorem define (orderly : engine.Orderly) {name : String} {cancellable : Bool} {priority : Int}
    {result : Except Error EventId}
    (defined : engine.defineEvent name cancellable priority = (result, next)) : next.Orderly := by
  cases defined
  obtain ⟨events, stays⟩ := orderly.events.define rfl
  exact ⟨events, fun injection member => stays _ (orderly.registered injection member)⟩

theorem listen (orderly : engine.Orderly) (event : EventId) (listener : Listener) :
    (engine.listen event listener).Orderly := by
  refine orderly.of_agrees (EventStore.agrees_put ?_) rfl
  unfold Event.addListener
  split <;> exact ⟨rfl, rfl, rfl, rfl⟩

theorem register (orderly : engine.Orderly) {event : EventId} {target : Target}
    {locator : Locator} {result : Except Error Unit}
    (registered : engine.registerInjection event target locator = (result, next)) :
    next.Orderly := by
  obtain ⟨_, _, _, rfl⟩ | ⟨owned, _, rfl⟩ := registerInjection_cases registered
  · exact orderly
  · refine ⟨orderly.events, ?_⟩
    intro injection member
    rcases List.mem_append.mp member with known | last
    · exact orderly.registered injection known
    · cases List.mem_singleton.mp last
      exact EventStore.mem_registered_of_owns (owns_of_ensureOwned owned)

theorem transform (orderly : engine.Orderly) {body woven : Body}
    {result : Except Error TransformReport}
    (transformed : engine.transform body = (result, next, woven)) : next.Orderly := by
  obtain ⟨eventsEq, injectionsEq⟩ := transform_keeps transformed
  exact orderly.of_agrees (eventsEq ▸ .refl _) injectionsEq

end Orderly

theorem Hosted.orderly {engine : Engine} (hosted : engine.Hosted) : engine.Orderly := by
  induction hosted with
  | fresh settings => exact orderly_fresh settings
  | define _ defined ih => exact ih.define defined
  | listen _ listened ih =>
      obtain ⟨_, _, _, rfl⟩ | ⟨_, _, rfl⟩ := addListener_cases listened
      · exact ih
      · exact ih.listen _ _
  | register _ registered ih => exact ih.register registered
  | transform _ transformed ih => exact ih.transform transformed

end Engine

end Weaver
