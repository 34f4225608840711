import Mathlib
import Weaver.Proofs.Engine.Weaving

/-!
# Transformed bodies

A transformation that succeeds neither loses nor repeats an event: every index that some injection
asks for gets one routine, which has exactly the events that are asked for there.  And although it
inserts at one site after the other, its outcome is that of inserting at all sites at once.

Here, and in the modules that build on this one, transformations of concrete bodies are computed with
`cbv`, for the kernel cannot evaluate the merge sort that orders the events of a site.  It unfolds
functions of the core library by equations that are stated in many places of Mathlib already, so this
one module imports Mathlib as a whole.
-/

namespace Weaver

open Splice

variable {engine next : Engine} {body woven : Body} {report : TransformReport}

/-- The run and its routine are for exactly the events that are paired with the site. -/
structure Routine.MergesAt (engine : Engine) (body : Body) (run : List Instr)
    (routine : Routine) : Prop where
  events_iff : ∀ event, event ∈ routine.eventIds ↔ engine.Pairs body routine.site event
  once : routine.eventIds.Nodup
  ascending : routine.eventIds.Pairwise fun first second =>
    Event.Precedes (engine.events.get first).rank (engine.events.get second).rank
  cancellable_iff : routine.cancellable = true ↔
    ∃ event, engine.Pairs body routine.site event ∧
      (engine.events.get event).cancellable = true
  /-- The wrapper is constructed with the name of the first event and the flag of the routine. -/
  constructs : ∃ lead, routine.eventIds.head? = some lead ∧
    [ .new (Wrapper.forReturn body.signature.ret).className,
      .dup,
      .const (.string (engine.events.get lead).name),
      if body.isStatic then .const .null else .load .reference 0,
      .const (.int (if routine.cancellable then 1 else 0)),
      .call .special (Wrapper.forReturn body.signature.ret).constructor ] <+: run
  calls : Instr.call .static routine.ref ∈ run

/-- A run that merges the events of its index is one for the events that are paired with it. -/
theorem Inlay.Merges.mergesAt {inlay : Inlay} {events : List EventId}
    (merges : inlay.Merges engine.events body events)
    (paired : ∀ event, event ∈ events ↔ engine.Pairs body inlay.index event) :
    inlay.routine.MergesAt engine body (inlay.run body.firstArgSlot) where
  events_iff := by
    intro event
    rw [merges.perm.mem_iff, merges.site_eq]
    exact paired event
  once := by
    apply merges.ascending.imp
    rintro first _ precedes rfl
    exact Event.Precedes.irrefl _ precedes
  ascending := merges.ascending
  cancellable_iff := by
    rw [merges.cancellable_iff, merges.site_eq]
    simp only [paired]
  constructs := by
    obtain ⟨lead, first, spliceEq⟩ := merges.splice_eq
    have built := inlay.construct_isPrefix body.firstArgSlot
    rw [spliceEq] at built
    exact ⟨lead, first, built⟩
  calls := inlay.call_mem_run body.firstArgSlot

namespace Engine

/-- Indices that are listed once each are as many as the list is long. -/
theorem ncard_of_mem_iff {indices : List Nat} (distinct : indices.Nodup) {among : Nat → Prop}
    (mem_iff : ∀ index, index ∈ indices ↔ among index) :
    indices.length = {index | among index}.ncard := by
  have asFinset : {index | among index} = (indices.toFinset : Set Nat) := by
    apply Set.ext
    intro index
    rw [Finset.mem_coe, List.mem_toFinset, mem_iff]
    rfl
  rw [asFinset, Set.ncard_coe_finset, List.toFinset_card_of_nodup distinct]

/-- Events that meet at a site are merged without loss or duplication.  A transformation that succeeds
modifies the body exactly if an index is paired with an event; it has one routine for each such index,
the last index first, whose events are those that are paired with the index, in increasing rank; and
the run before the instruction at that index constructs the wrapper with the name of the first of
them and the flag that one of them gives. -/
theorem transform_merges (hosted : engine.Hosted)
    (done : engine.transform body = (.ok report, next, woven)) :
    (report.modified = true ↔ ∃ index event, engine.Pairs body index event) ∧
    report.sites = {index | ∃ event, engine.Pairs body index event}.ncard ∧
    (report.routines.map fun id => (next.proxies.get id).site).Pairwise (fun first second =>
      second < first) ∧
    (∀ index, index ∈ report.routines.map (fun id => (next.proxies.get id).site) ↔
      ∃ event, engine.Pairs body index event) ∧
    ∃ runs : Nat → List Instr,
      woven.code.instrs = Code.interleave runs 0 body.code.instrs ∧
      (∀ index, runs index ≠ [] ↔ ∃ event, engine.Pairs body index event) ∧
      ∀ id ∈ report.routines, (next.proxies.get id).MergesAt engine body
        (runs (next.proxies.get id).site) := by
  obtain ⟨inlays, routinesEq, sitesEq, modified, indices, inlaid, each⟩ :=
    exists_of_transform hosted done
  have siteEq : ∀ inlay ∈ inlays, (next.proxies.get inlay.routine.id).site = inlay.index := by
    intro inlay member
    obtain ⟨present, events, paired, merges⟩ := each inlay member
    rw [present, merges.site_eq]
  have sites : report.routines.map (fun id => (next.proxies.get id).site) =
      inlays.map Inlay.index := by
    rw [routinesEq, List.map_map]
    exact List.map_congr_left siteEq
  have descending : (inlays.map Inlay.index).Pairwise fun first second => second < first :=
    List.pairwise_map.mpr inlaid.descending
  refine ⟨?_, ?_, ?_, ?_, Inlay.runsAt body.firstArgSlot inlays, inlaid.instrs_eq, ?_, ?_⟩
  · rw [modified]
    constructor
    · intro filled
      obtain ⟨inlay, member⟩ := List.exists_mem_of_ne_nil inlays filled
      exact ⟨inlay.index, (indices inlay.index).mp (List.mem_map_of_mem member)⟩
    · rintro ⟨index, paired⟩ rfl
      cases (indices index).mpr paired
  · have distinct : (inlays.map Inlay.index).Nodup := descending.imp fun below => below.ne'
    rw [sitesEq, ← ncard_of_mem_iff distinct indices, List.length_map]
  · rw [sites]
    exact descending
  · rw [sites]
    exact indices
  · exact fun index => (Inlay.runsAt_ne_nil_iff inlaid.descending).trans (indices index)
  · intro id member
    rw [routinesEq] at member
    obtain ⟨inlay, inlayIn, rfl⟩ := List.mem_map.mp member
    obtain ⟨present, events, paired, merges⟩ := each inlay inlayIn
    rw [present, merges.site_eq, Inlay.runsAt_of_mem inlaid.descending inlayIn]
    exact merges.mergesAt paired

/-- A host with the given events and injections. -/
def hostOf (events : List Event) (injections : List Injection) : Engine :=
  { fresh .standard with
    events := .ofList events
    targets := injections.foldl (fun targets injection => targets.register injection.target) .empty
    injections }

/-- The countdown as a target. -/
def countdownTarget : Target where
  aliases := ⟨Body.countdown.ref, none, none, by decide⟩
  named := by decide

/-- Two events, the second of which comes before the first. -/
def twoEvents : List Event := [.ofName "e" false 0 0, .ofName "f" true (-1) 1]

/-- A locator of the host whose sites are neither sorted nor distinct. -/
def scattered : Locator :=
  .host "scattered" fun _ _ _ => [.before 4, .after 3, .before 0, .before 4]

/-- The first event at the start of the countdown, and the second at the scattered sites. -/
def twoInjections : List Injection :=
  [⟨⟨0⟩, countdownTarget, .head⟩, ⟨⟨1⟩, countdownTarget, scattered⟩]

/-- How the host comes to its events and injections. -/
theorem steps_twoInjections :
    (fresh .standard).defineEvent "e" false 0 = (.ok ⟨0⟩, hostOf (twoEvents.take 1) []) ∧
    (hostOf (twoEvents.take 1) []).defineEvent "f" true (-1) = (.ok ⟨1⟩, hostOf twoEvents []) ∧
    (hostOf twoEvents []).registerInjection ⟨0⟩ countdownTarget .head =
      (.ok (), hostOf twoEvents (twoInjections.take 1)) ∧
    (hostOf twoEvents (twoInjections.take 1)).registerInjection ⟨1⟩ countdownTarget scattered =
      (.ok (), hostOf twoEvents twoInjections) := by
  refine ⟨?_, ?_, ?_, ?_⟩ <;> cbv

theorem hosted_twoInjections : (hostOf twoEvents twoInjections).Hosted := by
  obtain ⟨first, second, third, fourth⟩ := steps_twoInjections
  exact .register (.register (.define (.define (.fresh .standard) first) second) third) fourth

theorem transform_twoInjections :
    let outcome := (hostOf twoEvents twoInjections).transform .countdown
    outcome.1 = .ok ⟨Body.countdown.text, true, 2, [⟨1⟩, ⟨2⟩]⟩ ∧
      (outcome.2.1.proxies.get ⟨2⟩).site = 0 ∧
      (outcome.2.1.proxies.get ⟨2⟩).eventIds = [⟨1⟩, ⟨0⟩] := by
  cbv

theorem transform_merges_twoInjections :
    (hostOf twoEvents twoInjections).Hosted ∧
      ((hostOf twoEvents twoInjections).transform .countdown).1 =
        .ok ⟨Body.countdown.text, true, 2, [⟨1⟩, ⟨2⟩]⟩ ∧
      {index | ∃ event, (hostOf twoEvents twoInjections).Pairs .countdown index event}.ncard = 2 ∧
      ∀ event, (hostOf twoEvents twoInjections).Pairs .countdown 0 event ↔
        event ∈ [EventId.mk 1, EventId.mk 0] := by
  obtain ⟨done, siteEq, eventsEq⟩ := transform_twoInjections
  obtain ⟨_, sites, _, _, runs, _, _, merges⟩ :=
    transform_merges hosted_twoInjections (Prod.ext done rfl)
  have atStart := merges ⟨2⟩ (by decide)
  refine ⟨hosted_twoInjections, done, sites.symm, ?_⟩
  intro event
  rw [← eventsEq, atStart.events_iff, siteEq]

/-- Injecting from the last site to the first is inserting at all sites at once.  After a
transformation that succeeds the code is that of the body, with one run before the instruction at
each index that is paired with an event, which calls the routine of that index; no two runs define a
label, or keep their wrapper in a slot, that the other or the body uses. -/
theorem transform_atOnce (hosted : engine.Hosted)
    (done : engine.transform body = (.ok report, next, woven)) :
    ∃ inlays : List Inlay, AtOnce body inlays woven ∧
      (∀ index, index ∈ inlays.map Inlay.index ↔ ∃ event, engine.Pairs body index event) ∧
      (inlays.map Inlay.index).Pairwise (fun first second => second < first) ∧
      report.routines = inlays.map (fun inlay => inlay.routine.id) ∧
      ∀ inlay ∈ inlays, next.proxies.get inlay.routine.id = inlay.routine ∧
        inlay.routine.site = inlay.index ∧
        inlay.splice.cancellable = inlay.routine.cancellable := by
  obtain ⟨inlays, routinesEq, _, _, indices, inlaid, each⟩ := exists_of_transform hosted done
  refine ⟨inlays, inlaid.atOnce, indices, List.pairwise_map.mpr inlaid.descending, routinesEq, ?_⟩
  intro inlay member
  obtain ⟨present, events, _, merges⟩ := each inlay member
  obtain ⟨lead, _, spliceEq⟩ := merges.splice_eq
  exact ⟨present, merges.site_eq, by rw [spliceEq]⟩

theorem transform_atOnce_twoInjections :
    (hostOf twoEvents twoInjections).Hosted ∧
      ((hostOf twoEvents twoInjections).transform .countdown).1 =
        .ok ⟨Body.countdown.text, true, 2, [⟨1⟩, ⟨2⟩]⟩ ∧
      ∃ inlays, AtOnce .countdown inlays
        ((hostOf twoEvents twoInjections).transform .countdown).2.2 ∧ inlays.length = 2 := by
  have done := transform_twoInjections.1
  obtain ⟨inlays, atOnce, _, _, routines, _⟩ :=
    transform_atOnce hosted_twoInjections (Prod.ext done rfl)
  refine ⟨hosted_twoInjections, done, inlays, atOnce, ?_⟩
  rw [← List.length_map fun inlay : Inlay => inlay.routine.id, ← routines]
  rfl

end Engine

end Weaver
