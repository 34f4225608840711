import Weaver.Proofs.Engine.Hosted
import Weaver.Proofs.Engine.Injection
import Weaver.Proofs.Engine.Sites
import Weaver.Proofs.Splice.Inlays
import Weaver.Proofs.Splice.Tracked

/-!
# What a transformation puts into a body

The events of a site are merged into one routine: the first of them brings it, and the others join
it.  A step lemma says what becomes of a loom at one site, and by induction on the sites the runs that
are inserted one after the other are runs at all of them.
-/

namespace Weaver

namespace EventStore

variable {store events : EventStore} {attachment : Attachment} {ids : List EventId}

/-- The events are those of the store, and some of them are attached. -/
structure Ready (store : EventStore) (attachment : Attachment) (ids : List EventId)
    (events : EventStore) : Prop where
  agrees : store.Agrees events
  attached : ∀ id ∈ ids, ∃ injections,
    (events.get id).attachment = some { attachment with injections }

theorem Ready.count (ready : Ready store attachment ids events) (id : EventId) :
    Ready store attachment ids (events.put id (events.get id).countInjection) where
  agrees := ready.agrees.trans (agrees_put ⟨rfl, rfl, rfl, rfl⟩)
  attached := by
    intro other member
    obtain ⟨injections, attached⟩ := ready.attached other member
    rw [get_put]
    split
    · rename_i here
      rw [← here.1, Event.countInjection, attached]
      exact ⟨injections + 1, rfl⟩
    · exact ⟨injections, attached⟩

/-- Events that are ready are sorted by the ranks that they have in the store. -/
theorem Ready.sort (ready : Ready store attachment ids events) (orderly : store.Orderly)
    {sorted : List EventId} (registered : ∀ id ∈ sorted, id ∈ store.registered)
    (once : sorted.Nodup) :
    (events.sort sorted).Perm sorted ∧
      (events.sort sorted).Pairwise fun first second =>
        Event.Precedes (store.get first).rank (store.get second).rank := by
  rw [← ready.agrees.registered_eq] at registered
  obtain ⟨perm, ascending⟩ := (orderly.of_agrees ready.agrees).sort registered once
  refine ⟨perm, ascending.imp ?_⟩
  intro first second precedes
  rwa [(ready.agrees.get first).rank_eq, (ready.agrees.get second).rank_eq] at precedes

end EventStore

namespace Routine

variable {routine : Routine} {store : EventStore}

/-- Events that are added in increasing rank are kept in the order of the additions. -/
theorem eventIds_addEvents {ids : List EventId} {lead : EventId}
    (alone : routine.events = [((store.get lead).rank, lead)])
    (ascending : (lead :: ids).Pairwise fun first second =>
      Event.Precedes (store.get first).rank (store.get second).rank) :
    (routine.addEvents (ids.map fun id => (store, id))).eventIds = lead :: ids := by
  have entriesEq : routine.events ++ (ids.map fun id => (store, id)).map entryOf =
      (lead :: ids).map fun id => ((store.get id).rank, id) := by
    rw [alone, List.map_map]
    rfl
  have sorted : Ascending ((lead :: ids).map fun id => ((store.get id).rank, id)) :=
    List.pairwise_map.mpr ascending
  have distinct : (((lead :: ids).map fun id => ((store.get id).rank, id)).map Prod.fst).Nodup := by
    rw [List.map_map]
    apply List.pairwise_map.mpr
    apply ascending.imp
    intro first second precedes same
    dsimp only [Function.comp_apply] at same
    rw [same] at precedes
    exact Event.Precedes.irrefl _ precedes
  obtain ⟨perm, ascendingAll⟩ := routine.events_addEvents (ids.map fun id => (store, id))
    (alone ▸ List.pairwise_singleton _ _) (entriesEq ▸ distinct)
  rw [entriesEq] at perm
  have same := perm.eq_of_pairwise
    (fun first second _ _ front back => absurd (front.trans back) (Event.Precedes.irrefl _))
    ascendingAll sorted
  rw [eventIds, same, List.map_map]
  exact List.map_id _

end Routine

/-- The run is that of a routine which merges the events. -/
structure Inlay.Merges (store : EventStore) (body : Body) (events : List EventId)
    (inlay : Inlay) : Prop where
  site_eq : inlay.routine.site = inlay.index
  target_eq : inlay.routine.target = body.text
  signature_eq : inlay.routine.signature =
    Routine.signatureFor (.forReturn body.signature.ret) body
  perm : inlay.routine.eventIds.Perm events
  ascending : inlay.routine.eventIds.Pairwise fun first second =>
    Event.Precedes (store.get first).rank (store.get second).rank
  cancellable_iff : inlay.routine.cancellable = true ↔
    ∃ id ∈ events, (store.get id).cancellable = true
  /-- The wrapper gets the name of the first event and the flag of the routine. -/
  splice_eq : ∃ lead, inlay.routine.eventIds.head? = some lead ∧
    inlay.splice = ⟨(store.get lead).name, .ofBody body, inlay.routine.cancellable⟩

namespace Loom

open Splice

variable {loom after : Loom} {store : EventStore} {attachment : Attachment} {ids : List EventId}
  {index : Nat} {routines : List RoutineId} {entries : List Diagnostic}

theorem eq_of_attach {id : EventId} (attached : loom.attach id = (.ok (), after)) :
    after = { loom with
      events := loom.events.put id
        { loom.events.get id with attachment := some (.ofBody loom.body) } } := by
  cases present : (loom.events.get id).attachment with
  | some current =>
      rw [attach_of_attached present] at attached
      cases attached
  | none =>
      rw [attach_of_idle present] at attached
      cases attached
      rfl

/-- Attaching events changes nothing but their attachments. -/
theorem exists_of_attachAll {held events : List EventId}
    (inside : ∀ id ∈ events, id.index < loom.events.events.size)
    (attached : loom.attachAll held events = (.ok (), after)) :
    after.body = loom.body ∧ after.proxies = loom.proxies ∧ loom.events.Agrees after.events ∧
      (∀ id ∈ events, (after.events.get id).attachment = some (.ofBody loom.body)) ∧
      ∀ id ∉ events, after.events.get id = loom.events.get id := by
  induction events generalizing loom held with
  | nil =>
      cases attached
      exact ⟨rfl, rfl, .refl _, List.forall_mem_nil _, fun _ _ => rfl⟩
  | cons id rest ih =>
      unfold attachAll at attached
      split at attached
      · cases attached
      · rename_i next once
        cases eq_of_attach once
        have sizeEq := EventStore.size_put loom.events id
          { loom.events.get id with attachment := some (.ofBody loom.body) }
        obtain ⟨bodyEq, proxiesEq, agrees, bound, others⟩ := ih
          (fun later member => sizeEq.symm ▸ inside later (List.mem_cons_of_mem _ member)) attached
        dsimp only at bodyEq proxiesEq agrees bound others
        have agreesOnce : loom.events.Agrees (loom.events.put id
            { loom.events.get id with attachment := some (.ofBody loom.body) }) :=
          EventStore.agrees_put ⟨rfl, rfl, rfl, rfl⟩
        refine ⟨bodyEq, proxiesEq, agreesOnce.trans agrees, ?_, ?_⟩
        · intro other member
          by_cases later : other ∈ rest
          · exact bound other later
          · obtain rfl := (List.mem_cons.mp member).resolve_right later
            rw [others other later, EventStore.get_put, if_pos ⟨rfl, inside other member⟩]
        · intro other away
          obtain ⟨differs, notLater⟩ := not_or.mp (mt List.mem_cons.mpr away)
          rw [others other notLater, EventStore.get_put, if_neg fun here => differs here.1]

/-- Events that join a routine are added to it, and leave the others and the body alone. -/
theorem exists_of_joinAll {arena : Arena} {id : RoutineId} {present : Routine}
    {events : List EventId} (joined : loom.joinAll id events = (.ok (), after))
    (ready : store.Ready attachment ids loom.events) (adds : arena.Adds present loom.proxies)
    (same : present.id = id) :
    after.body = loom.body ∧ store.Ready attachment ids after.events ∧
      arena.Adds (present.addEvents (events.map fun id => (store, id))) after.proxies := by
  induction events generalizing loom present with
  | nil =>
      cases joined
      exact ⟨rfl, ready, adds⟩
  | cons event rest ih =>
      unfold joinAll at joined
      split at joined
      · cases joined
      · rename_i next once
        obtain rfl := eq_of_join once
        have presentEq : loom.proxies.get id = present := same ▸ adds.get_self
        have sameRank : present.addEvent loom.events event = present.addEvent store event := by
          rw [Routine.addEvent, Routine.addEvent, (ready.agrees.get event).rank_eq]
        rw [presentEq, sameRank] at joined
        have added : arena.Adds (present.addEvent store event)
            (loom.proxies.put (present.addEvent store event)) := adds.put rfl
        obtain ⟨bodyEq, readyAll, addsAll⟩ := ih joined (ready.count event) added same
        exact ⟨bodyEq, readyAll, addsAll⟩

/-- How often an event was injected does not matter to what is inserted. -/
theorem applied_of_injections {name : String} {cancellable : Bool} {injections depth : Nat}
    {body woven : Body} {routine : MethodRef} {skip : Label} {run : Run}
    (effect : Applied ⟨name, { attachment with injections }, cancellable⟩ body index routine depth
      skip run woven) :
    Applied ⟨name, attachment, cancellable⟩ body index routine depth skip run woven :=
  ⟨effect.analysed, effect.handed, effect.made, effect.narrow, effect.declarable, effect.inserted,
    effect.nextLabel_lt, effect.woven_eq⟩

/-- At a site the first event is injected, and the others join its routine. -/
theorem inject_of_injectSite {events : List EventId} (filled : loom.events.sort events ≠ [])
    (done : loom.injectSite index events = (.ok (), routines, entries, after)) :
    ∃ lead rest routine middle,
      loom.events.sort events = lead :: rest ∧ routines = [routine] ∧
      loom.inject lead index ((loom.events.sort events).any fun id =>
        (loom.events.get id).cancellable) = (.ok routine, middle) ∧
      middle.joinAll routine rest = (.ok (), after) := by
  unfold injectSite at done
  dsimp only at done
  cases sortedEq : loom.events.sort events with
  | nil => exact absurd sortedEq filled
  | cons lead rest =>
      rw [sortedEq] at done
      dsimp only at done
      split at done
      · cases done
      · rename_i routine middle injected
        split at done
        · cases done
        · rename_i last joined
          cases done
          exact ⟨lead, rest, routine, middle, rfl, rfl, injected, joined⟩

/-- What an injection of the events of one site puts into the body and the arena. -/
theorem exists_of_injectSite {events : List EventId} (orderly : store.Orderly)
    (registered : ∀ id ∈ ids, id ∈ store.registered)
    (ready : store.Ready (.ofBody loom.body) ids loom.events)
    (among : ∀ id ∈ events, id ∈ ids) (once : events.Nodup) (filled : events ≠ [])
    (done : loom.injectSite index events = (.ok (), routines, entries, after)) :
    ∃ (inlay : Inlay) (depth : Nat) (run : Run),
      routines = [inlay.routine.id] ∧ inlay.index = index ∧
      inlay.slot? = inlay.splice.wrapperLocal? loom.body ∧
      Applied inlay.splice loom.body index inlay.routine.ref depth inlay.skip run after.body ∧
      inlay.Merges store loom.body events ∧
      loom.proxies.Adds inlay.routine after.proxies ∧
      store.Ready (.ofBody loom.body) ids after.events := by
  obtain ⟨perm, ranked⟩ := ready.sort orderly
    (fun id member => registered id (among id member)) once
  have flag : ((loom.events.sort events).any fun id => (loom.events.get id).cancellable) = true ↔
      ∃ id ∈ events, (store.get id).cancellable = true := by
    simp only [List.any_eq_true, perm.mem_iff, (ready.agrees.get _).cancellable_eq]
  have sortedFilled : loom.events.sort events ≠ [] :=
    fun nothing => filled (List.nil_perm.mp (nothing ▸ perm))
  obtain ⟨lead, rest, routine, middle, sortedEq, rfl, injected, joined⟩ :=
    inject_of_injectSite sortedFilled done
  rw [sortedEq] at injected perm flag ranked
  obtain ⟨attachment, added, report, attached, applied, eventsEq, rfl, adds, serves, alone⟩ :=
    exists_of_inject injected
  obtain ⟨injections, bound⟩ := ready.attached lead
    (among lead (perm.mem_iff.mp List.mem_cons_self))
  obtain rfl := Option.some.inj (attached.symm.trans bound)
  obtain ⟨bodyEq, readyAll, addsAll⟩ :=
    exists_of_joinAll joined (eventsEq ▸ ready.count lead) adds rfl
  rw [(ready.agrees.get lead).rank_eq] at alone
  have merged := Routine.eventIds_addEvents alone ranked
  rw [added.addEvents_eq] at addsAll merged
  obtain ⟨depth, skip, run, effect, _⟩ := applied_of_apply applied
  rw [(ready.agrees.get lead).name_eq, ← serves.cancellable_eq] at effect
  rw [← serves.cancellable_eq] at flag
  set merging : Routine :=
    { added with events := (added.addEvents (rest.map fun id => (store, id))).events }
  set splice : Splice := ⟨(store.get lead).name, .ofBody loom.body, added.cancellable⟩
  refine ⟨⟨index, splice, merging, splice.wrapperLocal? loom.body, skip⟩, depth, run, rfl, rfl, rfl,
    ?_, ?_, addsAll, readyAll⟩
  · rw [bodyEq]
    exact applied_of_injections effect
  · refine ⟨serves.site_eq, serves.target_eq, serves.signature_eq, ?_, ?_, flag, lead, ?_, rfl⟩
    · exact merged ▸ perm
    · exact merged ▸ ranked
    · exact congrArg List.head? merged

/-- What injections at several sites, from the last to the first, put into the body and the arena. -/
theorem exists_of_injectSites {sites : SiteMap} (orderly : store.Orderly)
    (registered : ∀ id ∈ ids, id ∈ store.registered)
    (ready : store.Ready (.ofBody loom.body) ids loom.events)
    (descending : sites.Pairwise fun first second => second.1 < first.1)
    (proper : ∀ entry ∈ sites, entry.2 ≠ [] ∧ entry.2.Nodup ∧ ∀ id ∈ entry.2, id ∈ ids)
    (done : loom.injectSites sites = (.ok (), routines, entries, after)) :
    ∃ inlays : List Inlay,
      routines = inlays.map (fun inlay => inlay.routine.id) ∧
      inlays.map Inlay.index = sites.map Prod.fst ∧
      Inlaid loom.body inlays after.body ∧
      (∀ inlay ∈ inlays, after.proxies.get inlay.routine.id = inlay.routine ∧
        ∃ events, (inlay.index, events) ∈ sites ∧ inlay.Merges store loom.body events) ∧
      ∀ id : RoutineId, id.number ≤ loom.proxies.routines.size →
        after.proxies.get id = loom.proxies.get id := by
  induction sites generalizing loom routines entries with
  | nil =>
      cases done
      exact ⟨[], rfl, rfl, .nil _, List.forall_mem_nil _, fun _ _ => rfl⟩
  | cons site rest ih =>
      obtain ⟨index, events⟩ := site
      obtain ⟨below, descendingRest⟩ := List.pairwise_cons.mp descending
      obtain ⟨⟨filled, once, among⟩, properRest⟩ := List.forall_mem_cons.mp proper
      unfold injectSites at done
      split at done
      · cases done
      · rename_i first noted middle here
        split at done
        rename_i later laterEntries last behind
        cases done
        obtain ⟨inlay, depth, run, rfl, rfl, slotEq, effect, merges, adds, readyNext⟩ :=
          exists_of_injectSite orderly registered ready among once filled here
        have bound : Attachment.ofBody middle.body = .ofBody loom.body := by
          rw [effect.woven_eq]
          rfl
        obtain ⟨inlays, rfl, indices, inlaid, each, others⟩ :=
          ih (bound.symm ▸ readyNext) descendingRest properRest behind
        refine ⟨inlay :: inlays, rfl, congrArg (List.cons inlay.index) indices, ?_, ?_, ?_⟩
        · have belowInlay : ∀ other ∈ inlays, other.index < inlay.index := by
            intro other member
            have inRest : other.index ∈ rest.map Prod.fst :=
              indices ▸ List.mem_map_of_mem member
            obtain ⟨entry, entryIn, indexEq⟩ := List.mem_map.mp inRest
            rw [← indexEq]
            exact below entry entryIn
          have whole := Inlaid.cons effect belowInlay inlaid
          rw [← slotEq] at whole
          exact whole
        · intro other member
          rcases List.mem_cons.mp member with rfl | laterOne
          · refine ⟨?_, events, List.mem_cons_self, merges⟩
            have old : other.routine.id.number ≤ middle.proxies.routines.size := by
              rw [adds.id_eq, adds.size_eq]
            rw [others _ old, adds.get_self]
          · obtain ⟨present, held, inRest, mergesOther⟩ := each other laterOne
            refine ⟨present, held, List.mem_cons_of_mem _ inRest, ?_⟩
            obtain ⟨lead, first, spliceEq⟩ := mergesOther.splice_eq
            have targetEq := mergesOther.target_eq
            have signatureEq := mergesOther.signature_eq
            rw [effect.woven_eq] at targetEq signatureEq
            exact
              { mergesOther with
                target_eq := targetEq
                signature_eq := signatureEq
                splice_eq := ⟨lead, first, bound ▸ spliceEq⟩ }
        · intro id old
          rw [others id (by rw [adds.size_eq]; exact Nat.le_succ_of_le old), adds.get_other id old]

end Loom

namespace Engine

open Splice

theorem injectSites_of_weave {loom last : Loom} {sites : SiteMap} {routines : List RoutineId}
    {entries : List Diagnostic} (woven : loom.weave sites = (.ok (), routines, entries, last)) :
    loom.injectSites sites.reverse = (.ok (), routines, entries, last) := by
  unfold Loom.weave at woven
  split at woven
  · cases woven
  · rename_i injected
    rw [injected, (Prod.mk.inj woven).2]

/-- A transformation that succeeds finds no site, or attaches the events and injects at every site. -/
theorem transform_cases {engine next : Engine} {body woven : Body} {report : TransformReport}
    (done : engine.transform body = (.ok report, next, woven)) :
    engine.siteMap body = [] ∧ report = .unmodified body ∧ woven = body ∨
      engine.siteMap body ≠ [] ∧ ∃ attached last entries,
        (engine.loom body).attachAll [] (engine.eventsOf (engine.siteMap body)) =
          (.ok (), attached) ∧
        attached.injectSites (engine.siteMap body).reverse =
          (.ok (), report.routines, entries, last) ∧
        report = ⟨body.text, true, (engine.siteMap body).length, report.routines⟩ ∧
        next.proxies = last.proxies ∧ woven = last.body := by
  cases transforms_of_transform done with
  | bare nothing => exact .inl ⟨nothing, rfl, rfl⟩
  | woven something attached _ weft =>
      exact .inr ⟨something, _, _, _, attached, injectSites_of_weave weft, rfl, rfl, rfl⟩

theorem Orderly.registered_of_mem_eventsOf {engine : Engine} (orderly : engine.Orderly)
    {body : Body} {id : EventId} (member : id ∈ engine.eventsOf (engine.siteMap body)) :
    id ∈ engine.events.registered := by
  obtain ⟨entry, entryIn, held⟩ := engine.mem_eventsOf_iff.mp member
  obtain ⟨injection, injected, rfl, _⟩ := (engine.mem_siteMap_iff entryIn id).mp held
  exact orderly.registered injection injected

/-- Events that are attached to a body for its transformation are ready to be injected there. -/
theorem Orderly.ready_of_attachAll {engine : Engine} (orderly : engine.Orderly) {body : Body}
    {attached : Loom} (accepted : (engine.loom body).attachAll []
      (engine.eventsOf (engine.siteMap body)) = (.ok (), attached)) :
    attached.body = body ∧ attached.proxies = engine.proxies ∧
      engine.events.Ready (.ofBody attached.body) (engine.eventsOf (engine.siteMap body))
        attached.events := by
  obtain ⟨bodyEq, proxiesEq, agrees, bound, _⟩ := Loom.exists_of_attachAll
    (fun id member => orderly.events.inside id (orderly.registered_of_mem_eventsOf member)) accepted
  exact ⟨bodyEq, proxiesEq, agrees, fun id member => ⟨0, bodyEq.symm ▸ bound id member⟩⟩

/-- What a transformation that succeeds puts into a body: at every index that is paired with an event
one run, whose routine merges the events that are paired with it. -/
structure Woven (engine : Engine) (body : Body) (report : TransformReport) (next : Engine)
    (woven : Body) (inlays : List Inlay) : Prop where
  routines_eq : report.routines = inlays.map fun inlay => inlay.routine.id
  sites_eq : report.sites = inlays.length
  modified_iff : report.modified = true ↔ inlays ≠ []
  mem_indices_iff : ∀ index,
    index ∈ inlays.map Inlay.index ↔ ∃ event, engine.Pairs body index event
  inlaid : Inlaid body inlays woven
  merges : ∀ inlay ∈ inlays, next.proxies.get inlay.routine.id = inlay.routine ∧
    ∃ events, (∀ event, event ∈ events ↔ engine.Pairs body inlay.index event) ∧
      inlay.Merges engine.events body events

/-- A body that is named by a target has few parameters, so that all arguments of its routines can be
counted. -/
theorem Woven.totalSlots_le {engine next : Engine} {body woven : Body} {report : TransformReport}
    {inlays : List Inlay} (done : Woven engine body report next woven inlays) :
    ∀ inlay ∈ inlays, inlay.routine.signature.totalSlots ≤ slotLimit := by
  intro inlay member
  obtain ⟨event, injection, _, _, named, _⟩ :=
    (done.mem_indices_iff inlay.index).mp (List.mem_map_of_mem member)
  obtain ⟨_, events, _, merges⟩ := done.merges inlay member
  have total : inlay.routine.signature.totalSlots = 1 + body.signature.totalSlots := by
    rw [merges.signature_eq]
    rfl
  calc inlay.routine.signature.totalSlots
      ≤ 1 + Signature.maxParameterSlots :=
        total.trans_le (Nat.add_le_add_left (Target.totalSlots_le_of_names named) 1)
    _ ≤ slotLimit := by decide

theorem Orderly.exists_of_transform {engine next : Engine} {body woven : Body}
    {report : TransformReport} (ordered : engine.Orderly)
    (done : engine.transform body = (.ok report, next, woven)) :
    ∃ inlays, Woven engine body report next woven inlays := by
  have pairedIndices := engine.mem_indices_siteMap_iff body
  rcases transform_cases done with
    ⟨nothing, rfl, rfl⟩ | ⟨something, attached, last, entries, attachedAll, injected, reportEq,
      proxiesEq, rfl⟩
  · rw [nothing] at pairedIndices
    exact ⟨[], rfl, rfl, by simp [TransformReport.unmodified], pairedIndices, .nil _,
      List.forall_mem_nil _⟩
  · obtain ⟨bodyEq, _, ready⟩ := ordered.ready_of_attachAll attachedAll
    obtain ⟨descending, proper⟩ := @descending_of_fromLast engine body _ List.prefix_rfl
    obtain ⟨inlays, routinesEq, indices, inlaid, each, _⟩ :=
      Loom.exists_of_injectSites ordered.events (fun _ => ordered.registered_of_mem_eventsOf) ready
        descending proper injected
    rw [bodyEq] at inlaid
    have lengthEq : (engine.siteMap body).length = inlays.length := by
      rw [← List.length_map Inlay.index, indices, List.length_map, List.length_reverse]
    have filled : inlays ≠ [] := by
      rw [← List.length_pos_iff, ← lengthEq, List.length_pos_iff]
      exact something
    refine ⟨inlays, routinesEq, ?_, ?_, ?_, inlaid, ?_⟩
    · rw [reportEq]
      exact lengthEq
    · rw [reportEq]
      exact iff_of_true rfl filled
    · intro index
      rw [indices, List.map_reverse, List.mem_reverse, pairedIndices]
    · intro inlay member
      obtain ⟨present, events, entryIn, merges⟩ := each inlay member
      rw [bodyEq] at merges
      rw [proxiesEq]
      exact ⟨present, events, engine.mem_siteMap_iff (List.mem_reverse.mp entryIn), merges⟩

theorem exists_of_transform {engine next : Engine} {body woven : Body} {report : TransformReport}
    (hosted : engine.Hosted) (done : engine.transform body = (.ok report, next, woven)) :
    ∃ inlays, Woven engine body report next woven inlays :=
  hosted.orderly.exists_of_transform done

end Engine

end Weaver
