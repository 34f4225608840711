import Mathlib.Data.List.Sort
import Weaver.Engine.Transform

/-!
# Which events meet at a site

Injections whose locators find the same insertion index put their events at one site, however they
place it.  The map of sites holds exactly the pairs of an index and an event that some injection asks
for, in increasing index, and each event of an index once.
-/

namespace Weaver

namespace SiteMap

variable {sites : SiteMap} {index position : Nat} {event other : EventId}

/-- The event is to be injected at the index. -/
def Holds (sites : SiteMap) (index : Nat) (event : EventId) : Prop :=
  ∃ events, (index, events) ∈ sites ∧ event ∈ events

/-- Increasing indices, with events at each of them and none twice. -/
structure Proper (sites : SiteMap) : Prop where
  increasing : sites.Pairwise fun first second => first.1 < second.1
  filled : ∀ entry ∈ sites, entry.2 ≠ []
  once : ∀ entry ∈ sites, entry.2.Nodup

theorem holds_nil : ¬ Holds [] position other := by
  rintro ⟨events, member, _⟩
  cases member

theorem holds_cons_iff {entry : Nat × List EventId} :
    Holds (entry :: sites) position other ↔
      position = entry.1 ∧ other ∈ entry.2 ∨ sites.Holds position other := by
  constructor
  · rintro ⟨events, member, held⟩
    rcases List.mem_cons.mp member with rfl | later
    · exact .inl ⟨rfl, held⟩
    · exact .inr ⟨events, later, held⟩
  · rintro (⟨rfl, held⟩ | ⟨events, later, held⟩)
    · exact ⟨entry.2, List.mem_cons_self, held⟩
    · exact ⟨events, List.mem_cons_of_mem _ later, held⟩

theorem holds_add_iff :
    (sites.add index event).Holds position other ↔
      sites.Holds position other ∨ position = index ∧ other = event := by
  induction sites with
  | nil => simp [add, holds_cons_iff, holds_nil]
  | cons entry rest ih =>
      unfold add
      split
      · simp only [holds_cons_iff, List.mem_singleton]
        exact or_comm
      · split
        · rename_i same
          subst same
          simp only [holds_cons_iff]
          split
          · rename_i known
            constructor
            · exact Or.inl
            · rintro (held | ⟨rfl, rfl⟩)
              · exact held
              · exact .inl ⟨rfl, known⟩
          · simp only [List.mem_append, List.mem_singleton]
            tauto
        · simp only [holds_cons_iff, ih, or_assoc]

theorem index_of_mem_add {entry : Nat × List EventId} (member : entry ∈ sites.add index event) :
    entry.1 = index ∨ ∃ present ∈ sites, present.1 = entry.1 := by
  induction sites with
  | nil =>
      cases List.mem_singleton.mp member
      exact .inl rfl
  | cons first rest ih =>
      unfold add at member
      split at member
      · rcases List.mem_cons.mp member with rfl | later
        · exact .inl rfl
        · exact .inr ⟨entry, later, rfl⟩
      · split at member
        · rename_i same
          rcases List.mem_cons.mp member with atIndex | later
          · refine .inl ?_
            rw [atIndex, same]
            split <;> rfl
          · exact .inr ⟨entry, List.mem_cons_of_mem _ later, rfl⟩
        · rcases List.mem_cons.mp member with rfl | later
          · exact .inr ⟨entry, List.mem_cons_self, rfl⟩
          · rcases ih later with atIndex | ⟨present, presentLater, indexEq⟩
            · exact .inl atIndex
            · exact .inr ⟨present, List.mem_cons_of_mem _ presentLater, indexEq⟩

theorem Proper.tail {entry : Nat × List EventId} (proper : Proper (entry :: sites)) :
    Proper sites where
  increasing := (List.pairwise_cons.mp proper.increasing).2
  filled := fun later member => proper.filled later (List.mem_cons_of_mem _ member)
  once := fun later member => proper.once later (List.mem_cons_of_mem _ member)

theorem Proper.cons {entry : Nat × List EventId} (proper : Proper sites)
    (below : ∀ later ∈ sites, entry.1 < later.1) (filled : entry.2 ≠ []) (once : entry.2.Nodup) :
    Proper (entry :: sites) where
  increasing := List.pairwise_cons.mpr ⟨below, proper.increasing⟩
  filled := List.forall_mem_cons.mpr ⟨filled, proper.filled⟩
  once := List.forall_mem_cons.mpr ⟨once, proper.once⟩

theorem Proper.add (proper : Proper sites) : Proper (sites.add index event) := by
  induction sites with
  | nil => exact proper.cons (List.forall_mem_nil _) (by simp) (List.nodup_singleton event)
  | cons first rest ih =>
      have below := (List.pairwise_cons.mp proper.increasing).1
      unfold SiteMap.add
      split
      · rename_i before
        refine proper.cons ?_ (by simp) (List.nodup_singleton event)
        exact List.forall_mem_cons.mpr
          ⟨before, fun later member => before.trans (below later member)⟩
      · rename_i notBefore
        split
        · split
          · exact proper
          · rename_i new
            refine proper.tail.cons below (by simp) ?_
            exact (proper.once first List.mem_cons_self).append (List.nodup_singleton event)
              (List.disjoint_singleton.mpr new)
        · rename_i away
          refine (ih proper.tail).cons ?_ (proper.filled first List.mem_cons_self)
            (proper.once first List.mem_cons_self)
          intro later member
          rcases index_of_mem_add member with rfl | ⟨present, inRest, indexEq⟩
          · omega
          · rw [← indexEq]
            exact below present inRest

theorem Proper.mem_iff (proper : Proper sites) {events : List EventId}
    (entry : (index, events) ∈ sites) : event ∈ events ↔ sites.Holds index event := by
  constructor
  · exact fun member => ⟨events, entry, member⟩
  · rintro ⟨others, otherEntry, member⟩
    have distinct : (sites.map Prod.fst).Nodup :=
      List.pairwise_map.mpr (proper.increasing.imp fun below => below.ne)
    cases List.inj_on_of_nodup_map distinct entry otherEntry rfl
    exact member

theorem Proper.mem_indices_iff (proper : Proper sites) :
    index ∈ sites.map Prod.fst ↔ ∃ event, sites.Holds index event := by
  constructor
  · intro member
    obtain ⟨⟨_, events⟩, entry, rfl⟩ := List.mem_map.mp member
    obtain ⟨event, held⟩ := List.exists_mem_of_ne_nil events (proper.filled _ entry)
    exact ⟨event, events, entry, held⟩
  · rintro ⟨_, events, entry, _⟩
    exact List.mem_map.mpr ⟨_, entry, rfl⟩

/-- Adding an event at all sites of a list makes the map hold it there. -/
theorem holds_addAll_iff {found : List Site} :
    (found.foldl (fun sites site => sites.add site.insertionIndex event) sites).Holds position
        other ↔
      sites.Holds position other ∨
        other = event ∧ ∃ site ∈ found, site.insertionIndex = position := by
  induction found generalizing sites with
  | nil => simp
  | cons site rest ih =>
      rw [List.foldl_cons, ih, holds_add_iff, List.exists_mem_cons_iff, eq_comm (a := position)]
      tauto

theorem Proper.addAll (proper : Proper sites) (found : List Site) :
    Proper (found.foldl (fun sites site => sites.add site.insertionIndex event) sites) := by
  induction found generalizing sites with
  | nil => exact proper
  | cons site rest ih => exact ih proper.add

end SiteMap

namespace Engine

/-- Some injection of the event has a target that names the body and a locator that finds a site
whose code is to be inserted at the index. -/
def Pairs (engine : Engine) (body : Body) (index : Nat) (event : EventId) : Prop :=
  ∃ injection ∈ engine.injections, injection.event = event ∧
    injection.target.names engine.settings.epochOrder body = true ∧
    ∃ site ∈ engine.sitesOf body injection, site.insertionIndex = index

/-- The map of sites of the first injections, and those of the ones behind. -/
theorem siteMap_fold (engine : Engine) (body : Body) (injections : List Injection)
    (sites : SiteMap) (proper : sites.Proper) :
    let all := injections.foldl
      (fun sites injection =>
        (engine.sitesOf body injection).foldl
          (fun sites site => sites.add site.insertionIndex injection.event) sites) sites
    all.Proper ∧ ∀ index event, all.Holds index event ↔
      sites.Holds index event ∨ ∃ injection ∈ injections, injection.event = event ∧
        ∃ site ∈ engine.sitesOf body injection, site.insertionIndex = index := by
  induction injections generalizing sites with
  | nil => exact ⟨proper, by simp⟩
  | cons injection rest ih =>
      obtain ⟨properAll, holdsAll⟩ := ih _ (proper.addAll (engine.sitesOf body injection))
      refine ⟨properAll, ?_⟩
      intro index event
      rw [List.foldl_cons, holdsAll, SiteMap.holds_addAll_iff, List.exists_mem_cons_iff, or_assoc]
      simp only [eq_comm (a := event)]

theorem proper_siteMap (engine : Engine) (body : Body) : (engine.siteMap body).Proper :=
  (engine.siteMap_fold body (engine.injectionsFor body) []
    ⟨.nil, List.forall_mem_nil _, List.forall_mem_nil _⟩).1

/-- The map of sites holds the pairs that are asked for, and no other. -/
theorem holds_siteMap_iff (engine : Engine) (body : Body) (index : Nat) (event : EventId) :
    (engine.siteMap body).Holds index event ↔ engine.Pairs body index event := by
  have held := (engine.siteMap_fold body (engine.injectionsFor body) []
    ⟨.nil, List.forall_mem_nil _, List.forall_mem_nil _⟩).2 index event
  refine held.trans ?_
  simp only [SiteMap.holds_nil, false_or, injectionsFor, List.mem_filter, Pairs]
  constructor
  · rintro ⟨injection, ⟨registered, names⟩, eventEq, found⟩
    exact ⟨injection, registered, eventEq, names, found⟩
  · rintro ⟨injection, registered, eventEq, names, found⟩
    exact ⟨injection, ⟨registered, names⟩, eventEq, found⟩

/-- The events of an entry are those that are paired with its index. -/
theorem mem_siteMap_iff (engine : Engine) {body : Body} {entry : Nat × List EventId}
    (member : entry ∈ engine.siteMap body) (event : EventId) :
    event ∈ entry.2 ↔ engine.Pairs body entry.1 event :=
  ((engine.proper_siteMap body).mem_iff member).trans (engine.holds_siteMap_iff body _ _)

theorem mem_indices_siteMap_iff (engine : Engine) (body : Body) (index : Nat) :
    index ∈ (engine.siteMap body).map Prod.fst ↔ ∃ event, engine.Pairs body index event := by
  simp only [(engine.proper_siteMap body).mem_indices_iff, holds_siteMap_iff]

theorem mem_eventsOf_iff (engine : Engine) {sites : SiteMap} {event : EventId} :
    event ∈ engine.eventsOf sites ↔ ∃ entry ∈ sites, event ∈ entry.2 := by
  unfold eventsOf EventStore.sort
  rw [List.mem_mergeSort, List.mem_eraseDups, List.mem_flatMap]

/-- Some of the sites of a body, from the last one on, have descending indices, and events that are to
be attached. -/
theorem descending_of_fromLast (engine : Engine) {body : Body} {filled : SiteMap}
    (fromLast : filled <+: (engine.siteMap body).reverse) :
    (filled.Pairwise fun first second => second.1 < first.1) ∧
      ∀ entry ∈ filled, entry.2 ≠ [] ∧ entry.2.Nodup ∧
        ∀ id ∈ entry.2, id ∈ engine.eventsOf (engine.siteMap body) := by
  have proper := engine.proper_siteMap body
  refine ⟨(List.pairwise_reverse.mpr proper.increasing).sublist fromLast.sublist, ?_⟩
  intro entry member
  have entryIn : entry ∈ engine.siteMap body := List.mem_reverse.mp (fromLast.subset member)
  exact ⟨proper.filled entry entryIn, proper.once entry entryIn,
    fun id held => engine.mem_eventsOf_iff.mpr ⟨entry, entryIn, held⟩⟩

theorem nodup_eraseDups (ids : List EventId) : ids.eraseDups.Nodup := by
  cases ids with
  | nil => exact List.nodup_nil
  | cons id rest =>
      rw [List.eraseDups_cons, List.nodup_cons, List.mem_eraseDups]
      refine ⟨?_, nodup_eraseDups (rest.filter fun other => !other == id)⟩
      intro member
      simpa using (List.mem_filter.mp member).2
termination_by ids.length
decreasing_by exact Nat.lt_succ_of_le (List.length_filter_le _ _)

theorem nodup_eventsOf (engine : Engine) (sites : SiteMap) : (engine.eventsOf sites).Nodup := by
  unfold eventsOf EventStore.sort
  exact (List.mergeSort_perm _ _).nodup_iff.mpr (nodup_eraseDups _)

end Engine

end Weaver
