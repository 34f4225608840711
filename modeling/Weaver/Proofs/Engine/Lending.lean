import Weaver.Proofs.Engine.Invariant
import Weaver.Proofs.Engine.Sites

/-!
# Events that are lent to a body

While a body is transformed its events are attached to it.  They were attached to nothing before, and
injections only count in their attachments, so they are as they were once they are detached again.
-/

namespace Weaver

namespace EventStore

variable {store events : EventStore} {id : EventId} {ids rest : List EventId}

theorem get?_put (store : EventStore) (id : EventId) (event : Event) (other : EventId) :
    (store.put id event).get? other =
      if other = id then (store.get? id).map fun _ => event else store.get? other := by
  unfold get? put
  rw [Array.getElem?_setIfInBounds]
  by_cases same : other = id
  · subst same
    by_cases inside : other.index < store.events.size <;> simp [inside]
  · have away : id.index ≠ other.index := fun equal => same (congrArg EventId.mk equal.symm)
    rw [if_neg away, if_neg same]

theorem get_of_get? {event : Event} (present : store.get? id = some event) :
    store.get id = event := by
  rw [get, present]
  rfl

/-- The events of a store, of which some were attached to nothing and are attached now. -/
structure Lent (store : EventStore) (ids : List EventId) (events : EventStore) : Prop where
  registry_eq : events.registry = store.registry
  idle : ∀ id ∈ ids, ∀ event, store.get? id = some event → event.attachment = none
  attached : ∀ id ∈ ids, ∃ attachment, events.get? id =
    (store.get? id).map fun event => { event with attachment := some attachment }
  kept : ∀ id ∉ ids, events.get? id = store.get? id

theorem lent_nil (store : EventStore) : store.Lent [] store :=
  ⟨rfl, List.forall_mem_nil _, List.forall_mem_nil _, fun _ _ => rfl⟩

theorem Lent.eq (lent : store.Lent [] events) : events = store := by
  have same : events.events = store.events := by
    apply Array.ext_getElem?
    intro position
    exact lent.kept ⟨position⟩ List.not_mem_nil
  cases events
  cases store
  exact congrArg₂ EventStore.mk same lent.registry_eq

theorem Lent.exists_attachment (lent : store.Lent ids events) (member : id ∈ ids) {event : Event}
    (present : store.get? id = some event) :
    ∃ attachment, events.get? id = some { event with attachment := some attachment } := by
  obtain ⟨attachment, here⟩ := lent.attached id member
  rw [present] at here
  exact ⟨attachment, here⟩

/-- An event that is attached to nothing can be lent. -/
theorem Lent.lend (lent : store.Lent ids events) (attachment : Attachment)
    (idle : (events.get id).attachment = none) :
    store.Lent (ids ++ [id])
      (events.put id { events.get id with attachment := some attachment }) := by
  have unlent : ∀ event, store.get? id = some event → events.get? id = some event := by
    intro event present
    by_cases known : id ∈ ids
    · obtain ⟨_, here⟩ := lent.exists_attachment known present
      rw [get_of_get? here] at idle
      cases idle
    · exact (lent.kept id known).trans present
  have others : ∀ other ∈ ids ++ [id], other ≠ id → other ∈ ids := fun other member differs =>
    (List.mem_append.mp member).resolve_right fun last => differs (List.mem_singleton.mp last)
  refine ⟨lent.registry_eq, ?_, ?_, ?_⟩
  · intro other member event present
    by_cases same : other = id
    · subst same
      rw [← get_of_get? (unlent event present)]
      exact idle
    · exact lent.idle other (others other member same) event present
  · intro other member
    rw [get?_put]
    by_cases same : other = id
    · subst same
      refine ⟨attachment, ?_⟩
      rw [if_pos rfl]
      cases present : store.get? other with
      | none =>
          have absent : events.get? other = none := by
            by_cases known : other ∈ ids
            · obtain ⟨_, here⟩ := lent.attached other known
              rw [here, present]
              rfl
            · exact (lent.kept other known).trans present
          rw [absent]
          rfl
      | some event =>
          rw [unlent event present, get_of_get? (unlent event present)]
          rfl
    · rw [if_neg same]
      exact lent.attached other (others other member same)
  · intro other away
    obtain ⟨unknown, notLast⟩ := not_or.mp (mt List.mem_append.mpr away)
    rw [get?_put, if_neg fun same => notLast (List.mem_singleton.mpr same)]
    exact lent.kept other unknown

/-- The first of the lent events has been given back if it is as it was. -/
theorem Lent.tail {after : EventStore} (lent : store.Lent (id :: rest) events)
    (registryEq : after.registry = events.registry)
    (returned : after.get? id = store.get? id)
    (others : ∀ other ≠ id, after.get? other = events.get? other) (once : id ∉ rest) :
    store.Lent rest after where
  registry_eq := registryEq.trans lent.registry_eq
  idle := fun other member => lent.idle other (List.mem_cons_of_mem _ member)
  attached := by
    intro other member
    rw [others other fun same => once (same ▸ member)]
    exact lent.attached other (List.mem_cons_of_mem _ member)
  kept := by
    intro other away
    by_cases same : other = id
    · rw [same]
      exact returned
    · rw [others other same]
      exact lent.kept other fun member => (List.mem_cons.mp member).elim same away

theorem Lent.reverse (lent : store.Lent ids events) : store.Lent ids.reverse events where
  registry_eq := lent.registry_eq
  idle := fun id member => lent.idle id (List.mem_reverse.mp member)
  attached := fun id member => lent.attached id (List.mem_reverse.mp member)
  kept := fun id away => lent.kept id (mt List.mem_reverse.mpr away)

theorem Lent.count (lent : store.Lent ids events) (member : id ∈ ids) :
    store.Lent ids (events.put id (events.get id).countInjection) where
  registry_eq := lent.registry_eq
  idle := lent.idle
  attached := by
    intro other otherMember
    obtain ⟨attachment, here⟩ := lent.attached other otherMember
    rw [get?_put]
    by_cases same : other = id
    · subst same
      refine ⟨attachment.count, ?_⟩
      cases present : store.get? other with
      | none =>
          rw [if_pos rfl, here, present]
          rfl
      | some event =>
          rw [present] at here
          rw [if_pos rfl, get_of_get? here, here]
          rfl
    · rw [if_neg same]
      exact ⟨attachment, here⟩
  kept := by
    intro other away
    have differs : other ≠ id := fun same => away (same ▸ member)
    rw [get?_put, if_neg differs]
    exact lent.kept other away

end EventStore

namespace Loom

variable {loom after : Loom} {store : EventStore} {id : EventId} {held ids : List EventId}

/-- Injections of lent events leave them lent. -/
theorem invariant_lent (store : EventStore) (ids : List EventId) :
    Invariant ids fun events _ _ => store.Lent ids events where
  allocate := fun _ _ _ _ lent => lent
  addEvent := fun _ _ lent => lent
  discard := fun lent => lent
  count := fun member lent => lent.count member

theorem eq_of_attach_error {error : Error} (refused : loom.attach id = (.error error, after)) :
    after = loom := by
  cases present : (loom.events.get id).attachment with
  | some current =>
      rw [attach_of_attached present] at refused
      exact (congrArg Prod.snd refused).symm
  | none =>
      rw [attach_of_idle present] at refused
      cases refused

theorem lent_of_attach (lent : store.Lent held loom.events)
    (attached : loom.attach id = (.ok (), after)) :
    ∃ events, after = { loom with events } ∧ store.Lent (held ++ [id]) events := by
  cases idle : (loom.events.get id).attachment with
  | some current =>
      rw [attach_of_attached idle] at attached
      cases attached
  | none =>
      rw [attach_of_idle idle] at attached
      cases attached
      exact ⟨_, rfl, lent.lend _ idle⟩

/-- Detaching the first of the lent events gives it back; if that fails it is not in the store. -/
theorem lent_of_detach (lent : store.Lent (id :: ids) loom.events) (once : id ∉ ids) :
    (∃ events, loom.detach id = (.ok (), { loom with events }) ∧ store.Lent ids events) ∨
      (∃ error, loom.detach id = (.error error, loom)) ∧ store.get? id = none ∧
        store.Lent ids loom.events := by
  obtain ⟨attachment, here⟩ := lent.attached id List.mem_cons_self
  cases present : store.get? id with
  | none =>
      rw [present] at here
      have absent : loom.events.get id = default := by
        rw [EventStore.get, here]
        rfl
      have refused := @detach_of_idle loom id (by rw [absent]; rfl)
      exact .inr ⟨⟨_, refused⟩, rfl, lent.tail rfl (here.trans present.symm) (fun _ _ => rfl) once⟩
  | some event =>
      rw [present] at here
      have state := EventStore.get_of_get? here
      refine .inl ⟨_, detach_of_attached (congrArg Event.attachment state),
        lent.tail rfl ?_ ?_ once⟩
      · have idle := lent.idle id List.mem_cons_self event present
        rw [EventStore.get?_put, if_pos rfl, state, here, present]
        cases event
        cases idle
        rfl
      · intro other differs
        rw [EventStore.get?_put, if_neg differs]

theorem detachAll_eq (lent : store.Lent ids loom.events) (once : ids.Nodup) :
    loom.detachAll ids = { loom with events := store } := by
  induction ids generalizing loom with
  | nil =>
      rw [← lent.eq]
      rfl
  | cons id rest ih =>
      obtain ⟨notLater, onceRest⟩ := List.nodup_cons.mp once
      change (loom.detach id).2.detachAll rest = _
      rcases lent_of_detach lent notLater with
        ⟨events, detached, lentRest⟩ | ⟨⟨error, refused⟩, _, lentRest⟩
      · rw [detached]
        exact ih lentRest onceRest
      · rw [refused]
        exact ih lentRest onceRest

/-- Attaching several events lends them all, or leaves the events of the store. -/
theorem lent_of_attachAll {result : Except Error Unit} (lent : store.Lent held loom.events)
    (once : (held ++ ids).Nodup) (attached : loom.attachAll held ids = (result, after)) :
    ∃ events, after = { loom with events } ∧
      (result = .ok () ∧ store.Lent (held ++ ids) events ∨
        (∃ error, result = .error error) ∧ events = store) := by
  induction ids generalizing loom held with
  | nil =>
      cases attached
      exact ⟨_, rfl, .inl ⟨rfl, (List.append_nil held).symm ▸ lent⟩⟩
  | cons id rest ih =>
      unfold attachAll at attached
      split at attached
      · rename_i refused
        cases attached
        have heldOnce : held.Nodup := (List.nodup_append.mp once).1
        rw [eq_of_attach_error refused]
        exact ⟨store, detachAll_eq lent heldOnce, .inr ⟨⟨_, rfl⟩, rfl⟩⟩
      · rename_i next first
        obtain ⟨events, rfl, lentNext⟩ := lent_of_attach lent first
        rw [List.append_cons] at once ⊢
        obtain ⟨later, afterEq, outcome⟩ := ih lentNext once attached
        exact ⟨later, afterEq, outcome⟩

theorem eq_of_attachAll_error {error : Error} (once : ids.Nodup)
    (attached : loom.attachAll [] ids = (.error error, after)) : after = loom := by
  obtain ⟨events, rfl, ⟨done, _⟩ | ⟨_, rfl⟩⟩ :=
    lent_of_attachAll loom.events.lent_nil once attached
  · cases done
  · rfl

/-- Attached events are lent. -/
theorem lent_of_attachAll_ok (once : ids.Nodup)
    (attached : loom.attachAll [] ids = (.ok (), after)) :
    ∃ events, after = { loom with events } ∧ loom.events.Lent ids events := by
  obtain ⟨events, afterEq, ⟨_, lent⟩ | ⟨⟨_, done⟩, _⟩⟩ :=
    lent_of_attachAll loom.events.lent_nil once attached
  · exact ⟨events, afterEq, lent⟩
  · cases done

/-- Releasing the lent events leaves the events of the store, and succeeds unless one of them is not
in the store. -/
theorem release_eq {result : Except Error Unit} (lent : store.Lent ids loom.events)
    (once : ids.Nodup) (released : loom.release ids = (result, after)) :
    after = { loom with events := store } ∧
      (result = .ok () ∨ ∃ id ∈ ids, store.get? id = none) := by
  induction ids generalizing loom with
  | nil =>
      cases released
      refine ⟨?_, .inl rfl⟩
      rw [← lent.eq]
  | cons id rest ih =>
      obtain ⟨notLater, onceRest⟩ := List.nodup_cons.mp once
      unfold release at released
      rcases lent_of_detach lent notLater with
        ⟨events, detached, lentRest⟩ | ⟨⟨error, refused⟩, absent, lentRest⟩
      · rw [detached] at released
        obtain ⟨afterEq, outcome⟩ := ih lentRest onceRest released
        refine ⟨afterEq, outcome.imp_right ?_⟩
        rintro ⟨other, member, absent⟩
        exact ⟨other, List.mem_cons_of_mem _ member, absent⟩
      · rw [refused] at released
        cases released
        exact ⟨detachAll_eq lentRest onceRest, .inr ⟨id, List.mem_cons_self, absent⟩⟩

end Loom

namespace Engine

variable {engine next : Engine} {body woven : Body} {result : Except Error TransformReport}

/-- What a transformation comes to: the result, the engine and the body.  The events of the engine
are as they were in all cases. -/
inductive Transforms (engine : Engine) (body : Body) :
    Except Error TransformReport → Engine → Body → Prop
  /-- There is no site. -/
  | bare (nothing : engine.siteMap body = []) :
      Transforms engine body (.ok (.unmodified body)) (engine.note (engine.foundReports body)) body
  /-- One of the events is attached already. -/
  | refused {error : Error} (something : engine.siteMap body ≠ [])
      (attached : (engine.loom body).attachAll [] (engine.eventsOf (engine.siteMap body)) =
        (.error error, engine.loom body)) :
      Transforms engine body (.error error) (engine.note (engine.foundReports body)) body
  /-- All events are injected at their sites. -/
  | woven {events : EventStore} {routines : List RoutineId} {entries : List Diagnostic} {last : Loom}
      (something : engine.siteMap body ≠ [])
      (attached : (engine.loom body).attachAll [] (engine.eventsOf (engine.siteMap body)) =
        (.ok (), { engine.loom body with events }))
      (lent : engine.events.Lent (engine.eventsOf (engine.siteMap body)) events)
      (weft : { engine.loom body with events }.weave (engine.siteMap body) =
        (.ok (), routines, entries, last)) :
      Transforms engine body
        (.ok ⟨body.text, true, (engine.siteMap body).length, routines⟩)
        { (engine.note (engine.foundReports body)).note entries with proxies := last.proxies }
        last.body
  /-- An injection fails, or the new code is at fault. -/
  | failed {events : EventStore} {routines : List RoutineId} {entries : List Diagnostic}
      {last : Loom} {error : Error} (something : engine.siteMap body ≠ [])
      (attached : (engine.loom body).attachAll [] (engine.eventsOf (engine.siteMap body)) =
        (.ok (), { engine.loom body with events }))
      (lent : engine.events.Lent (engine.eventsOf (engine.siteMap body)) events)
      (weft : { engine.loom body with events }.weave (engine.siteMap body) =
        (.error error, routines, entries, last)) :
      Transforms engine body (.error error)
        { (engine.note (engine.foundReports body)).note
              (entries ++ failureReports body error) with
          proxies := routines.foldl Arena.discard last.proxies }
        body
  /-- One of the events is not in the store, and so cannot be detached. -/
  | unreleased {events : EventStore} {routines : List RoutineId} {entries : List Diagnostic}
      {last : Loom} (error : Error) (something : engine.siteMap body ≠ [])
      (absent : ∃ id ∈ engine.eventsOf (engine.siteMap body), engine.events.get? id = none)
      (weft : { engine.loom body with events }.weave (engine.siteMap body) =
        (.ok (), routines, entries, last)) :
      Transforms engine body (.error error)
        { (engine.note (engine.foundReports body)).note entries with proxies := last.proxies } body

/-- A transformation comes to one of these. -/
theorem transforms_of_transform (done : engine.transform body = (result, next, woven)) :
    engine.Transforms body result next woven := by
  have once : (engine.eventsOf (engine.siteMap body)).Nodup := engine.nodup_eventsOf _
  have members : ∀ entry ∈ engine.siteMap body, ∀ id ∈ entry.2,
      id ∈ engine.eventsOf (engine.siteMap body) :=
    fun entry member id held => engine.mem_eventsOf_iff.mpr ⟨entry, member, held⟩
  unfold transform at done
  dsimp only at done
  split at done
  · rename_i nothing
    cases done
    exact .bare (List.isEmpty_iff.mp nothing)
  rename_i filled
  have something : engine.siteMap body ≠ [] := mt List.isEmpty_iff.mpr filled
  split at done
  · rename_i attached
    cases done
    cases Loom.eq_of_attachAll_error once attached
    exact .refused something attached
  rename_i attached
  obtain ⟨events, rfl, (lent : engine.events.Lent (engine.eventsOf (engine.siteMap body)) events)⟩ :=
    Loom.lent_of_attachAll_ok once attached
  split at done
  · rename_i routines entries last weft
    have lentLast := (Loom.invariant_lent engine.events _).weave members lent weft
    split at done
    · rename_i error left released
      cases done
      obtain ⟨rfl, succeeds | ⟨id, member, absent⟩⟩ :=
        Loom.release_eq lentLast.reverse (List.nodup_reverse.mpr once) released
      · cases succeeds
      · have outcome :=
          Transforms.unreleased error something ⟨id, List.mem_reverse.mp member, absent⟩ weft
        exact outcome
    · rename_i left released
      cases done
      obtain ⟨rfl, _⟩ := Loom.release_eq lentLast.reverse (List.nodup_reverse.mpr once) released
      have outcome := Transforms.woven something attached lent weft
      exact outcome
  · rename_i error routines entries last weft
    have lentLast := (Loom.invariant_lent engine.events _).weave members lent weft
    rw [Loom.detachAll_eq lentLast once] at done
    cases done
    have outcome := Transforms.failed something attached lent weft
    exact outcome

theorem transform_keeps (done : engine.transform body = (result, next, woven)) :
    next.events = engine.events ∧ next.injections = engine.injections := by
  cases transforms_of_transform done <;> exact ⟨rfl, rfl⟩

theorem eq_of_transform_error {error : Error}
    (done : engine.transform body = (.error error, next, woven)) : woven = body := by
  cases transforms_of_transform done <;> rfl

end Engine

end Weaver
