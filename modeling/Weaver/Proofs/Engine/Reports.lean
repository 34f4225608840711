import Weaver.Proofs.Engine.Rollback

/-!
# What the log says of injections

A transformation reports the events of a site as soon as the site has its run, one entry for each
event of the routine.  If it succeeds these are the pairs of a site and an event that the new code
serves.  But entries are only ever added to the log: when a later site or the check of the outcome
fails, the body is as it was and the routines are discarded, and the entries of the sites that had
their runs by then stay.
-/

namespace Weaver

/-- The entry says that an event was injected. -/
def Diagnostic.tellsInjection (entry : Diagnostic) : Bool :=
  entry.category = .injection && entry.severity = .info

/-- The entries that say that events were injected, in order. -/
def Log.injections (log : Log) : List Diagnostic := log.entries.toList.filter (·.tellsInjection)

namespace Routine

/-- The site of a routine with each of its events. -/
def places (routine : Routine) : List (Nat × EventId) :=
  routine.eventIds.map fun id => (routine.site, id)

/-- The entries for the events of a routine. -/
def reports (routine : Routine) (store : EventStore) : List Diagnostic :=
  routine.eventIds.map fun id =>
    let name := (store.get id).name
    { severity := .info
      category := .injection
      message := s!"Event {name} injected at site {routine.site} via {routine.text}"
      method := routine.target
      event := name
      site := routine.site }

theorem mem_places_iff {routine : Routine} {index : Nat} {id : EventId} :
    (index, id) ∈ routine.places ↔ routine.site = index ∧ id ∈ routine.eventIds := by
  simp only [places, List.mem_map, Prod.mk.injEq]
  constructor
  · rintro ⟨_, member, siteEq, rfl⟩
    exact ⟨siteEq, member⟩
  · rintro ⟨siteEq, member⟩
    exact ⟨id, member, siteEq, rfl⟩

theorem nodup_places {routine : Routine} (once : routine.eventIds.Nodup) : routine.places.Nodup :=
  once.map fun _ _ same => (Prod.mk.inj same).2

theorem tellsInjection_of_mem_reports {routine : Routine} {store : EventStore} {entry : Diagnostic}
    (member : entry ∈ routine.reports store) : entry.tellsInjection = true := by
  obtain ⟨id, _, rfl⟩ := List.mem_map.mp member
  rfl

end Routine

/-- Two lists of the same events in increasing rank are the same. -/
theorem EventStore.eq_of_ascending {store : EventStore} {first second : List EventId}
    (perm : first.Perm second)
    (firstRanked : first.Pairwise fun front back =>
      Event.Precedes (store.get front).rank (store.get back).rank)
    (secondRanked : second.Pairwise fun front back =>
      Event.Precedes (store.get front).rank (store.get back).rank) : first = second :=
  perm.eq_of_pairwise
    (fun _ _ _ _ front back => absurd (front.trans back) (Event.Precedes.irrefl _))
    firstRanked secondRanked

theorem Arena.get_discardAll (arena : Arena) (ids : List RoutineId) (id : RoutineId) :
    (ids.foldl Arena.discard arena).get id = arena.get id := by
  induction ids generalizing arena with
  | nil => rfl
  | cons _ rest ih => exact ih _

/-- Routines of sites that descend do not share a place. -/
theorem Arena.nodup_places {arena : Arena} {ids : List RoutineId}
    (descending : ids.Pairwise fun first second => (arena.get second).site < (arena.get first).site)
    (once : ∀ id ∈ ids, (arena.get id).eventIds.Nodup) :
    (ids.flatMap fun id => (arena.get id).places).Nodup := by
  rw [List.nodup_flatMap]
  refine ⟨fun id member => Routine.nodup_places (once id member), descending.imp ?_⟩
  rintro first second below ⟨index, event⟩ front back
  rw [Routine.mem_places_iff] at front back
  omega

namespace Loom

variable {loom after : Loom} {store : EventStore} {ids events : List EventId} {index : Nat}
  {routines : List RoutineId} {entries : List Diagnostic} {sites : SiteMap} {error : Error}

/-- The entries for a site are made when all its events are in their routine. -/
theorem entries_of_injectSite
    (done : loom.injectSite index events = (.ok (), routines, entries, after)) :
    entries = routines.flatMap (after.siteReports index (loom.events.sort events)) := by
  unfold injectSite at done
  dsimp only at done
  split at done
  · cases done
    rfl
  · rename_i sortedEq
    repeat' split at done
    all_goals cases done
    rw [sortedEq, List.flatMap_singleton]

theorem entries_of_injectSite_error
    (failed : loom.injectSite index events = (.error error, routines, entries, after)) :
    entries = [] := by
  unfold injectSite at failed
  dsimp only at failed
  repeat' split at failed
  all_goals cases failed <;> rfl

/-- The entries for a site are those for the events of its routine. -/
theorem siteReports_eq {routine : Routine} (agrees : store.Agrees loom.events)
    (present : loom.proxies.get routine.id = routine) (siteEq : routine.site = index)
    (targetEq : routine.target = loom.body.text) :
    loom.siteReports index routine.eventIds routine.id = routine.reports store := by
  unfold siteReports Routine.reports
  simp only [(agrees.get _).name_eq, present, siteEq, targetEq]

/-- Injections at several sites report the events of their routines. -/
theorem entries_of_injectSites (orderly : store.Orderly)
    (registered : ∀ id ∈ ids, id ∈ store.registered)
    (ready : store.Ready (.ofBody loom.body) ids loom.events)
    (descending : sites.Pairwise fun first second => second.1 < first.1)
    (proper : ∀ entry ∈ sites, entry.2 ≠ [] ∧ entry.2.Nodup ∧ ∀ id ∈ entry.2, id ∈ ids)
    (done : loom.injectSites sites = (.ok (), routines, entries, after)) :
    entries = routines.flatMap fun id => (after.proxies.get id).reports store := by
  induction sites generalizing loom routines entries with
  | nil =>
      cases done
      rfl
  | cons site rest ih =>
      obtain ⟨index, events⟩ := site
      obtain ⟨_, descendingRest⟩ := List.pairwise_cons.mp descending
      obtain ⟨⟨filled, once, among⟩, properRest⟩ := List.forall_mem_cons.mp proper
      unfold injectSites at done
      split at done
      · cases done
      · rename_i first noted middle here
        split at done
        rename_i later laterEntries last behind
        cases done
        have noticed := entries_of_injectSite here
        obtain ⟨inlay, _, _, rfl, rfl, _, effect, merges, adds, readyNext⟩ :=
          exists_of_injectSite orderly registered ready among once filled here
        have bound : Attachment.ofBody middle.body = .ofBody loom.body := by
          rw [effect.woven_eq]
          rfl
        obtain ⟨_, _, _, _, _, others⟩ := exists_of_injectSites orderly registered
          (bound.symm ▸ readyNext) descendingRest properRest behind
        obtain ⟨perm, ranked⟩ := ready.sort orderly
          (fun id member => registered id (among id member)) once
        have sortedEq : loom.events.sort events = inlay.routine.eventIds :=
          EventStore.eq_of_ascending (perm.trans merges.perm.symm) ranked merges.ascending
        have targetEq : inlay.routine.target = middle.body.text :=
          merges.target_eq.trans (congrArg Attachment.method bound.symm)
        have old : inlay.routine.id.number ≤ middle.proxies.routines.size := by
          rw [adds.id_eq, adds.size_eq]
        rw [List.singleton_append, List.flatMap_cons, others _ old, adds.get_self,
          ← ih (bound.symm ▸ readyNext) descendingRest properRest behind, noticed,
          List.flatMap_singleton, sortedEq,
          siteReports_eq readyNext.agrees adds.get_self merges.site_eq targetEq]

/-- Injections at several sites fill the first of them, and then the next one fails or none is left. -/
theorem exists_filled_of_injectSites {result : Except Error Unit}
    (done : loom.injectSites sites = (result, routines, entries, after)) :
    ∃ filled rest first more reached, sites = filled ++ rest ∧ routines = first ++ more ∧
      loom.injectSites filled = (.ok (), first, entries, reached) ∧
      (result = .ok () ∧ rest = [] ∧ more = [] ∧ after = reached ∨
        ∃ index events later error, result = .error error ∧ rest = (index, events) :: later ∧
          reached.injectSite index events = (.error error, more, [], after)) := by
  induction sites generalizing loom routines entries with
  | nil =>
      cases done
      exact ⟨[], [], [], [], _, rfl, rfl, rfl, .inl ⟨rfl, rfl, rfl, rfl⟩⟩
  | cons site rest ih =>
      obtain ⟨index, events⟩ := site
      unfold injectSites at done
      split at done
      · rename_i error failing noted last refused
        cases done
        obtain rfl := entries_of_injectSite_error refused
        exact ⟨[], _, [], _, loom, rfl, rfl, rfl, .inr ⟨index, events, rest, error, rfl, rfl, refused⟩⟩
      · rename_i here
        split at done
        rename_i behind
        cases done
        obtain ⟨filled, left, first, more, reached, rfl, rfl, filling, outcome⟩ := ih behind
        refine ⟨(index, events) :: filled, left, _, more, reached, rfl,
          (List.append_assoc _ first more).symm, ?_, outcome⟩
        rw [injectSites, here]
        dsimp only
        rw [filling]

end Loom

namespace Engine

variable {engine next : Engine} {body woven : Body} {result : Except Error TransformReport}
  {report : TransformReport} {error : Error} {filled : SiteMap} {arena later : Arena}
  {attached reached : Loom} {routines : List RoutineId} {entries : List Diagnostic}

/-- The entries tell of new routines for a body, one entry for each event of each routine.  The
routines are those of some sites, from the last one on, and have the events that are asked for there. -/
structure Recounts (engine : Engine) (body : Body) (filled : SiteMap) (arena : Arena)
    (routines : List RoutineId) (entries : List Diagnostic) : Prop where
  fromLast : filled <+: (engine.siteMap body).reverse
  entries_eq : entries = routines.flatMap fun id => (arena.get id).reports engine.events
  sites_eq : routines.map (fun id => (arena.get id).site) = filled.map Prod.fst
  target_eq : ∀ id ∈ routines, (arena.get id).target = body.text
  events_iff : ∀ id ∈ routines, ∀ event,
    event ∈ (arena.get id).eventIds ↔ engine.Pairs body (arena.get id).site event
  /-- No event is told twice at a site. -/
  once : (routines.flatMap fun id => (arena.get id).places).Nodup
  new : ∀ id ∈ routines, ¬ engine.proxies.Knows id

/-- Where a transformation stops, and the sites that had their runs by then, from the last one on. -/
inductive Stops (engine : Engine) (body : Body) (error : Error) : SiteMap → Prop
  /-- An event cannot be attached. -/
  | unattached (refused : ((engine.loom body).attachAll []
      (engine.eventsOf (engine.siteMap body))).1 = .error error) : Stops engine body error []
  /-- The events of the next site cannot be injected. -/
  | atSite {filled rest : SiteMap} {attached reached : Loom} {routines : List RoutineId}
      {entries : List Diagnostic} {index : Nat} {events : List EventId}
      (accepted : (engine.loom body).attachAll [] (engine.eventsOf (engine.siteMap body)) =
        (.ok (), attached))
      (sites : (engine.siteMap body).reverse = filled ++ (index, events) :: rest)
      (filling : attached.injectSites filled = (.ok (), routines, entries, reached))
      (refused : (reached.injectSite index events).1 = .error error) :
      Stops engine body error filled
  /-- All sites have their runs, and the declared stack does not suit the new code. -/
  | atCheck {attached reached : Loom} {routines : List RoutineId} {entries : List Diagnostic}
      (accepted : (engine.loom body).attachAll [] (engine.eventsOf (engine.siteMap body)) =
        (.ok (), attached))
      (filling : attached.injectSites (engine.siteMap body).reverse =
        (.ok (), routines, entries, reached))
      (refused : reached.checkStack = .error error) :
      Stops engine body error (engine.siteMap body).reverse

namespace Recounts

theorem nil (engine : Engine) (body : Body) (arena : Arena) : engine.Recounts body [] arena [] [] :=
  ⟨List.nil_prefix, rfl, rfl, List.forall_mem_nil _, List.forall_mem_nil _, .nil,
    List.forall_mem_nil _⟩

/-- What the entries tell of is as it was wherever the routines are. -/
theorem congr (recounts : engine.Recounts body filled arena routines entries)
    (same : ∀ id ∈ routines, later.get id = arena.get id) :
    engine.Recounts body filled later routines entries where
  fromLast := recounts.fromLast
  entries_eq := by
    rw [recounts.entries_eq]
    exact List.flatMap_congr fun id member => by rw [same id member]
  sites_eq := by
    rw [← recounts.sites_eq]
    exact List.map_congr_left fun id member => by rw [same id member]
  target_eq := by
    intro id member
    rw [same id member]
    exact recounts.target_eq id member
  events_iff := by
    intro id member
    rw [same id member]
    exact recounts.events_iff id member
  once := by
    rw [List.flatMap_congr fun id member => congrArg Routine.places (same id member)]
    exact recounts.once
  new := recounts.new

theorem filter_eq (recounts : engine.Recounts body filled arena routines entries) :
    entries.filter (·.tellsInjection) = entries := by
  rw [List.filter_eq_self, recounts.entries_eq]
  intro entry member
  obtain ⟨id, _, here⟩ := List.mem_flatMap.mp member
  exact Routine.tellsInjection_of_mem_reports here

/-- The site of a routine is one that some injection asks for. -/
theorem exists_pairs (recounts : engine.Recounts body filled arena routines entries)
    {id : RoutineId} (member : id ∈ routines) :
    ∃ event, engine.Pairs body (arena.get id).site event := by
  apply (engine.mem_indices_siteMap_iff body _).mp
  have among : (arena.get id).site ∈ filled.map Prod.fst :=
    recounts.sites_eq ▸ List.mem_map_of_mem member
  have whole := (recounts.fromLast.map Prod.fst).subset among
  rwa [List.map_reverse, List.mem_reverse] at whole

theorem entries_eq_nil_iff (recounts : engine.Recounts body filled arena routines entries) :
    entries = [] ↔ filled = [] := by
  have sitesNil : filled = [] ↔ routines = [] := by
    rw [← List.map_eq_nil_iff (f := Prod.fst), ← recounts.sites_eq, List.map_eq_nil_iff]
  rw [sitesNil, recounts.entries_eq, List.flatMap_eq_nil_iff]
  constructor
  · intro silent
    apply List.eq_nil_iff_forall_not_mem.mpr
    intro id member
    obtain ⟨event, paired⟩ := recounts.exists_pairs member
    have held := (recounts.events_iff id member event).mpr paired
    rw [List.map_eq_nil_iff.mp (silent id member)] at held
    cases held
  · rintro rfl
    exact List.forall_mem_nil _

/-- When all sites have their runs, the pairs of a site and an event that are told are those that are
asked for. -/
theorem mem_places_iff (recounts : engine.Recounts body filled arena routines entries)
    (whole : filled = (engine.siteMap body).reverse) (index : Nat) (event : EventId) :
    (index, event) ∈ (routines.flatMap fun id => (arena.get id).places) ↔
      engine.Pairs body index event := by
  simp only [List.mem_flatMap, Routine.mem_places_iff]
  constructor
  · rintro ⟨id, member, rfl, held⟩
    exact (recounts.events_iff id member event).mp held
  · intro paired
    have among := (engine.mem_indices_siteMap_iff body index).mpr ⟨event, paired⟩
    rw [← List.mem_reverse, ← List.map_reverse, ← whole, ← recounts.sites_eq] at among
    obtain ⟨id, member, rfl⟩ := List.mem_map.mp among
    exact ⟨id, member, rfl, (recounts.events_iff id member event).mpr paired⟩

end Recounts

/-- Entries that are added to the log are told behind those that are there. -/
theorem injections_note (engine : Engine) (added : List Diagnostic) :
    (engine.note added).log.injections =
      engine.log.injections ++ added.filter (·.tellsInjection) := by
  rw [note, Log.injections, Log.toList_append, List.filter_append]
  rfl

theorem injections_note_foundReports (engine : Engine) (body : Body) :
    (engine.note (engine.foundReports body)).log.injections = engine.log.injections := by
  have silent : (engine.foundReports body).filter (·.tellsInjection) = [] := by
    rw [List.filter_eq_nil_iff]
    unfold foundReports
    split
    · intro entry member
      obtain ⟨injection, _, rfl⟩ := List.mem_map.mp member
      nofun
    · exact List.forall_mem_nil _
  rw [injections_note, silent, List.append_nil]

theorem filter_failureReports (body : Body) (error : Error) :
    (failureReports body error).filter (·.tellsInjection) = [] := by
  cases error <;> rfl

/-- Injections at some of the sites, from the last one on, tell what they put there. -/
theorem Coherent.recounts_of_injectSites (coherent : engine.Coherent)
    (accepted : (engine.loom body).attachAll [] (engine.eventsOf (engine.siteMap body)) =
      (.ok (), attached))
    (fromLast : filled <+: (engine.siteMap body).reverse)
    (filling : attached.injectSites filled = (.ok (), routines, entries, reached)) :
    engine.Recounts body filled reached.proxies routines entries ∧
      engine.proxies.Grown routines reached.proxies := by
  have orderly := coherent.orderly.events
  have registered : ∀ id ∈ engine.eventsOf (engine.siteMap body), id ∈ engine.events.registered :=
    fun id member => coherent.orderly.registered_of_mem_eventsOf member
  obtain ⟨bodyEq, proxiesEq, ready⟩ := coherent.orderly.ready_of_attachAll accepted
  obtain ⟨descending, proper⟩ := engine.descending_of_fromLast fromLast
  have told := Loom.entries_of_injectSites orderly registered ready descending proper filling
  obtain ⟨inlays, rfl, indices, _, each, _⟩ :=
    Loom.exists_of_injectSites orderly registered ready descending proper filling
  have start : engine.proxies.Grown [] attached.proxies := by
    rw [proxiesEq]
    exact coherent.sound.grown_nil
  have grown := (Loom.invariant_grown coherent.sound _).injectSites
    (fun entry member => (proper entry member).2.2) start filling
  rw [bodyEq] at each
  have sites : (inlays.map fun inlay => inlay.routine.id).map
      (fun id => (reached.proxies.get id).site) = filled.map Prod.fst := by
    rw [← indices, List.map_map]
    apply List.map_congr_left
    intro inlay member
    obtain ⟨present, _, _, merges⟩ := each inlay member
    exact (congrArg Routine.site present).trans merges.site_eq
  have downwards : ((inlays.map fun inlay => inlay.routine.id).map
      fun id => (reached.proxies.get id).site).Pairwise fun first second => second < first := by
    rw [sites]
    exact List.pairwise_map.mpr descending
  refine ⟨⟨fromLast, told, sites, ?_, ?_, ?_, ?_⟩, grown⟩
  · intro id member
    obtain ⟨inlay, inlayIn, rfl⟩ := List.mem_map.mp member
    obtain ⟨present, _, _, merges⟩ := each inlay inlayIn
    exact (congrArg Routine.target present).trans merges.target_eq
  · intro id member event
    obtain ⟨inlay, inlayIn, rfl⟩ := List.mem_map.mp member
    obtain ⟨present, events, entryIn, merges⟩ := each inlay inlayIn
    rw [present, merges.perm.mem_iff, merges.site_eq]
    exact engine.mem_siteMap_iff (List.mem_reverse.mp (fromLast.subset entryIn)) event
  · refine Arena.nodup_places (List.pairwise_map.mp downwards) ?_
    intro id member
    obtain ⟨inlay, inlayIn, rfl⟩ := List.mem_map.mp member
    obtain ⟨present, events, entryIn, merges⟩ := each inlay inlayIn
    rw [present]
    exact merges.perm.nodup_iff.mpr (proper _ entryIn).2.1
  · intro id member known
    exact absurd (grown.new id member) (Nat.not_lt_of_le known.2)

/-- A transformation that stops tells what it had put at the sites by then. -/
theorem Coherent.stops_of_weave (coherent : engine.Coherent) {last : Loom}
    (accepted : (engine.loom body).attachAll [] (engine.eventsOf (engine.siteMap body)) =
      (.ok (), attached))
    (weft : attached.weave (engine.siteMap body) = (.error error, routines, entries, last)) :
    ∃ filled told, engine.Stops body error filled ∧
      engine.Recounts body filled last.proxies told entries := by
  unfold Loom.weave at weft
  split at weft
  · rename_i failed
    cases weft
    obtain ⟨filled, rest, first, more, reached, sites, rfl, filling, ⟨⟨⟩, _⟩ |
      ⟨index, events, later, _, ⟨⟩, rfl, refused⟩⟩ := Loom.exists_filled_of_injectSites failed
    have fromLast : filled <+: (engine.siteMap body).reverse := sites ▸ List.prefix_append _ _
    obtain ⟨recounts, grown⟩ := coherent.recounts_of_injectSites accepted fromLast filling
    have entryIn : (index, events) ∈ engine.siteMap body := by
      rw [← List.mem_reverse, sites]
      exact List.mem_append_right _ List.mem_cons_self
    have among : ∀ id ∈ events, id ∈ engine.eventsOf (engine.siteMap body) :=
      fun id held => engine.mem_eventsOf_iff.mpr ⟨_, entryIn, held⟩
    -- the routine of the site that fails, if there is one, is not among those that are told
    have beyond := (Loom.invariant_grown grown.sound _).injectSite among grown.sound.grown_nil refused
    exact ⟨filled, first, .atSite accepted sites filling (congrArg Prod.fst refused),
      recounts.congr fun id member => beyond.get_old id (grown.knows member).2⟩
  · rename_i filling
    obtain ⟨refused, rest⟩ := Prod.mk.inj weft
    cases rest
    exact ⟨_, routines, .atCheck accepted filling refused,
      (coherent.recounts_of_injectSites accepted List.prefix_rfl filling).1⟩

/-- What a transformation adds to the log of injections. -/
theorem Coherent.exists_recounts (coherent : engine.Coherent)
    (done : engine.transform body = (result, next, woven)) :
    ∃ filled routines entries,
      next.log.injections = engine.log.injections ++ entries ∧
      engine.Recounts body filled next.proxies routines entries ∧
      (∀ report, result = .ok report →
        report.routines = routines ∧ filled = (engine.siteMap body).reverse) ∧
      ∀ error, result = .error error → engine.Stops body error filled := by
  cases transforms_of_transform done with
  | bare nothing =>
      refine ⟨[], [], [], ?_, .nil _ _ _, ?_, ?_⟩
      · rw [injections_note_foundReports, List.append_nil]
      · rintro _ ⟨⟩
        rw [nothing]
        exact ⟨rfl, rfl⟩
      · rintro _ ⟨⟩
  | refused _ refused =>
      refine ⟨[], [], [], ?_, .nil _ _ _, ?_, ?_⟩
      · rw [injections_note_foundReports, List.append_nil]
      · rintro _ ⟨⟩
      · rintro _ ⟨⟩
        exact .unattached (congrArg Prod.fst refused)
  | @woven _ routines entries _ _ accepted _ weft =>
      obtain ⟨recounts, _⟩ := coherent.recounts_of_injectSites accepted List.prefix_rfl
        (injectSites_of_weave weft)
      refine ⟨_, routines, entries, ?_, recounts, ?_, ?_⟩
      · refine (injections_note _ _).trans ?_
        rw [injections_note_foundReports, recounts.filter_eq]
      · rintro _ ⟨⟩
        exact ⟨rfl, rfl⟩
      · rintro _ ⟨⟩
  | @failed _ routines entries last _ _ accepted _ weft =>
      obtain ⟨filled, told, stops, recounts⟩ := coherent.stops_of_weave accepted weft
      have discarded : engine.Recounts body filled (routines.foldl Arena.discard last.proxies) told
          entries := recounts.congr fun id _ => last.proxies.get_discardAll routines id
      refine ⟨filled, told, entries, ?_, discarded, ?_, ?_⟩
      · refine (injections_note _ _).trans ?_
        rw [injections_note_foundReports, List.filter_append, recounts.filter_eq,
          filter_failureReports, List.append_nil]
      · rintro _ ⟨⟩
      · rintro _ ⟨⟩
        exact stops
  | unreleased _ _ absent _ =>
      obtain ⟨id, member, missing⟩ := absent
      exact absurd missing (coherent.orderly.get?_ne_none member)

/-- The code of a body with one run for each of the routines, at its site, which calls it. -/
structure Calls (body woven : Body) (routines : List Routine) (runs : Nat → List Instr) : Prop where
  instrs_eq : woven.code.instrs = Code.interleave runs 0 body.code.instrs
  filled_iff : ∀ index, runs index ≠ [] ↔ ∃ routine ∈ routines, routine.site = index
  calls : ∀ routine ∈ routines, Instr.call .static routine.ref ∈ runs routine.site

/-- A transformation that succeeds puts a run at the site of each routine that it reports. -/
theorem Orderly.exists_calls (orderly : engine.Orderly)
    (done : engine.transform body = (.ok report, next, woven)) :
    ∃ runs, Calls body woven (report.routines.map next.proxies.get) runs := by
  obtain ⟨inlays, wovenAll⟩ := orderly.exists_of_transform done
  have inlaid := wovenAll.inlaid
  have routinesEq : report.routines.map next.proxies.get = inlays.map Inlay.routine := by
    rw [wovenAll.routines_eq, List.map_map]
    exact List.map_congr_left fun inlay member => (wovenAll.merges inlay member).1
  have siteEq : ∀ inlay ∈ inlays, inlay.routine.site = inlay.index := by
    intro inlay member
    obtain ⟨_, _, _, merges⟩ := wovenAll.merges inlay member
    exact merges.site_eq
  rw [routinesEq]
  refine ⟨Inlay.runsAt body.firstArgSlot inlays, inlaid.instrs_eq, ?_, ?_⟩
  · intro index
    rw [Inlay.runsAt_ne_nil_iff inlaid.descending, List.mem_map]
    constructor
    · rintro ⟨inlay, member, rfl⟩
      exact ⟨inlay.routine, List.mem_map_of_mem member, siteEq inlay member⟩
    · rintro ⟨routine, member, rfl⟩
      obtain ⟨inlay, inlayIn, rfl⟩ := List.mem_map.mp member
      exact ⟨inlay, inlayIn, (siteEq inlay inlayIn).symm⟩
  · intro routine member
    obtain ⟨inlay, inlayIn, rfl⟩ := List.mem_map.mp member
    rw [siteEq inlay inlayIn, Inlay.runsAt_of_mem inlaid.descending inlayIn]
    exact inlay.call_mem_run body.firstArgSlot

/-- What the log says of the injections of a transformation.  What is added to it is one entry for
each event of each of some routines, which are new and belong to sites of the body from the last one
on; it has the name of the event, the index of the site and the text of the routine.  If the
transformation succeeds these are the routines that it reports: they live, the new code calls each of
them at its site, and the pairs that are told are all that some injection asks for.  If it fails the
sites are those that had their runs where it stopped.  Then the body is as it was and none of the
routines lives, so that all of these entries are wrong, and there is none exactly if no site had its
run. -/
theorem transform_reports (reachable : engine.Reachable)
    (done : engine.transform body = (result, next, woven)) :
    ∃ filled routines entries,
      next.log.injections = engine.log.injections ++ entries ∧
      engine.Recounts body filled next.proxies routines entries ∧
      (∀ report, result = .ok report →
        report.routines = routines ∧
        next.proxies.live = engine.proxies.live ++ routines ∧
        (∃ runs, Calls body woven (routines.map next.proxies.get) runs) ∧
        ∀ index event, (index, event) ∈ (routines.flatMap fun id => (next.proxies.get id).places) ↔
          engine.Pairs body index event) ∧
      ∀ error, result = .error error →
        woven = body ∧
        engine.Stops body error filled ∧
        (∀ id ∈ routines, id ∉ next.proxies.live) ∧
        (entries = [] ↔ filled = []) := by
  have coherent := reachable.coherent
  have grown := coherent.grown done
  obtain ⟨filled, routines, entries, logEq, recounts, succeeds, stops⟩ :=
    coherent.exists_recounts done
  refine ⟨filled, routines, entries, logEq, recounts, ?_, ?_⟩
  · rintro report rfl
    obtain ⟨rfl, whole⟩ := succeeds report rfl
    exact ⟨rfl, grown.live_eq, coherent.orderly.exists_calls done, recounts.mem_places_iff whole⟩
  · rintro error rfl
    refine ⟨eq_of_transform_error done, stops error rfl, ?_, recounts.entries_eq_nil_iff⟩
    intro id member lives
    rw [grown.live_eq] at lives
    exact recounts.new id member
      (coherent.sound.known id ((List.mem_append.mp lives).resolve_right List.not_mem_nil))

/-- The second event is reported at its two sites, and the first one at the start. -/
theorem transform_reports_twoInjections :
    let outcome := (hostOf twoEvents twoInjections).transform .countdown
    (hostOf twoEvents twoInjections).Reachable ∧
      outcome.1 = .ok ⟨Body.countdown.text, true, 2, [⟨1⟩, ⟨2⟩]⟩ ∧
      outcome.2.1.log.injections.map (fun entry => (entry.event, entry.site)) =
        [(some "f", some 4), (some "f", some 0), (some "e", some 0)] ∧
      ∀ index event, (index, event) ∈ [(4, EventId.mk 1), (0, EventId.mk 1), (0, EventId.mk 0)] ↔
        (hostOf twoEvents twoInjections).Pairs .countdown index event := by
  have done := transform_twoInjections.1
  obtain ⟨_, _, _, logEq, recounts, succeeds, _⟩ :=
    transform_reports hosted_twoInjections.reachable (Prod.ext done rfl)
  obtain ⟨rfl, _, _, asked⟩ := succeeds _ rfl
  refine ⟨hosted_twoInjections.reachable, done, ?_, ?_⟩
  · rw [logEq, recounts.entries_eq]
    cbv
  · have placesEq : ([⟨1⟩, ⟨2⟩] : List RoutineId).flatMap (fun id =>
        (((hostOf twoEvents twoInjections).transform .countdown).2.1.proxies.get id).places) =
        [(4, ⟨1⟩), (0, ⟨1⟩), (0, ⟨0⟩)] := by cbv
    rw [← placesEq]
    exact asked

/-- A method that jumps over the first of two returns. -/
def overleaping : Body :=
  { Body.ofNames "a/B" "m" ⟨[], .void⟩ ⟨9⟩ with
    code := .ofList [.jump .always ⟨0⟩, .ret none, .label ⟨0⟩, .ret none] }

/-- The method as a target. -/
def overleapingTarget : Target where
  aliases := ⟨overleaping.ref, none, none, by decide⟩
  named := by decide

/-- A host that asks for an event before each return of the method. -/
def returnsHost : Engine :=
  hostOf (twoEvents.take 1) [⟨⟨0⟩, overleapingTarget, .beforeReturn none⟩]

theorem reachable_returnsHost : returnsHost.Reachable := by
  have defined : (fresh .standard).defineEvent "e" false 0 = (.ok ⟨0⟩, hostOf (twoEvents.take 1) []) :=
    steps_twoInjections.1
  have registered : (hostOf (twoEvents.take 1) []).registerInjection ⟨0⟩ overleapingTarget
      (.beforeReturn none) = (.ok (), returnsHost) := by cbv
  exact (Hosted.register (.define (.fresh .standard) defined) registered).reachable

/-- The last return has its run, and then the first one cannot be reached. -/
theorem transform_overleaping :
    (returnsHost.transform overleaping).1 =
        .error (.synthesis overleaping.text (.unreachableSite 1)) ∧
      returnsHost.log.injections = [] ∧
      (returnsHost.transform overleaping).2.1.log.injections.map Diagnostic.site = [some 3] := by
  decide +kernel

/-- A transformation that fails may have told of injections. -/
theorem not_always_silent :
    ¬ ∀ (engine next : Engine) (body woven : Body) (error : Error), engine.Reachable →
      engine.transform body = (.error error, next, woven) →
      next.log.injections = engine.log.injections := by
  intro silent
  obtain ⟨failed, before, after⟩ := transform_overleaping
  have same := silent _ _ _ _ _ reachable_returnsHost (Prod.ext failed rfl)
  rw [same, before] at after
  cases after

end Engine

end Weaver
