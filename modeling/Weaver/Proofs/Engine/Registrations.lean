import Mathlib.Data.List.Forall2
import Weaver.Proofs.Engine.Rollback

/-!
# The order of registrations

A host says which events there are, which listeners they have and where they are to be injected.  Only
the first two kinds of calls are made in an order that matters: injections that are registered in
another order, or more than once, give the same bodies and the same routines.
-/

namespace Weaver

namespace SiteMap

variable {first second : SiteMap}

/-- The same indices, with the same events at each of them in whatever order. -/
def Alike (first second : SiteMap) : Prop :=
  List.Forall₂ (fun one other => one.1 = other.1 ∧ one.2.Perm other.2) first second

/-- Proper maps that hold the same pairs differ in the order of the events at most. -/
theorem Proper.alike (one : first.Proper) (other : second.Proper)
    (same : ∀ index event, first.Holds index event ↔ second.Holds index event) :
    first.Alike second := by
  have indices : first.map Prod.fst = second.map Prod.fst := by
    have sortedOne := List.pairwise_map.mpr one.increasing
    have sortedOther := List.pairwise_map.mpr other.increasing
    have perm : (first.map Prod.fst).Perm (second.map Prod.fst) := by
      refine (List.perm_ext_iff_of_nodup (sortedOne.imp Nat.ne_of_lt)
        (sortedOther.imp Nat.ne_of_lt)).mpr ?_
      intro index
      simp only [one.mem_indices_iff, other.mem_indices_iff, same]
    exact perm.eq_of_pairwise (fun _ _ _ _ below above => absurd below (Nat.lt_asymm above))
      sortedOne sortedOther
  have paired : List.Forall₂ (fun one other => one.1 = other.1) first second := by
    have equal : List.Forall₂ Eq (first.map Prod.fst) (second.map Prod.fst) := by
      rw [List.forall₂_eq_eq_eq]
      exact indices
    rwa [List.forall₂_map_left_iff, List.forall₂_map_right_iff] at equal
  obtain ⟨lengths, places⟩ := List.forall₂_iff_zip.mp paired
  refine List.forall₂_iff_zip.mpr ⟨lengths, ?_⟩
  rintro ⟨index, events⟩ ⟨place, others⟩ zipped
  obtain rfl : index = place := places zipped
  obtain ⟨entryIn, otherIn⟩ := List.of_mem_zip zipped
  refine ⟨rfl, (List.perm_ext_iff_of_nodup (one.once _ entryIn) (other.once _ otherIn)).mpr ?_⟩
  intro event
  rw [one.mem_iff entryIn, other.mem_iff otherIn, same]

end SiteMap

namespace Loom

variable {loom : Loom} {index : Nat} {events others : List EventId} {first second : SiteMap}

theorem injectSite_congr (same : loom.events.sort events = loom.events.sort others) :
    loom.injectSite index events = loom.injectSite index others := by
  unfold injectSite
  rw [same]

/-- Events that are listed in another order at their sites are injected in the same way. -/
theorem injectSites_congr (orderly : loom.events.Orderly) (alike : first.Alike second)
    (proper : ∀ entry ∈ first, entry.2.Nodup ∧ ∀ id ∈ entry.2, id ∈ loom.events.registered) :
    loom.injectSites first = loom.injectSites second := by
  induction alike generalizing loom with
  | nil => rfl
  | @cons entry other rest others entries _ ih =>
      obtain ⟨index, events⟩ := entry
      obtain ⟨place, listed⟩ := other
      obtain ⟨rfl, perm⟩ := entries
      obtain ⟨⟨once, registered⟩, later⟩ := List.forall_mem_cons.mp proper
      have here : loom.injectSite index events = loom.injectSite index listed :=
        injectSite_congr (orderly.sort_eq_of_perm registered once perm)
      unfold injectSites
      rw [← here]
      rcases outcome : loom.injectSite index events with ⟨_ | _, routines, noted, next⟩
      · rfl
      · have agrees : loom.events.Agrees next.events := by
          apply (invariant_agrees loom.events events).injectSite (fun _ member => member) (.refl _)
            outcome
          exact []
        dsimp only
        rw [ih (orderly.of_agrees agrees) (agrees.registered_eq.symm ▸ later)]

theorem weave_congr (orderly : loom.events.Orderly) (alike : first.Alike second)
    (proper : ∀ entry ∈ first, entry.2.Nodup ∧ ∀ id ∈ entry.2, id ∈ loom.events.registered) :
    loom.weave first = loom.weave second := by
  have reversed : SiteMap.Alike first.reverse second.reverse :=
    List.forall₂_reverse_iff.mpr alike
  unfold weave
  rw [injectSites_congr orderly reversed
    fun entry member => proper entry (List.mem_reverse.mp member)]

end Loom

namespace Engine

/-- Engines that differ at most in the order in which targets and injections were registered, in how
often they were, and in the log. -/
structure Alike (first second : Engine) : Prop where
  settings_eq : second.settings = first.settings
  events_eq : second.events = first.events
  proxies_eq : second.proxies = first.proxies
  mem_injections_iff : ∀ injection, injection ∈ second.injections ↔ injection ∈ first.injections

variable {first second : Engine} {body : Body}

theorem mem_eventsOf_siteMap_iff (engine : Engine) {event : EventId} :
    event ∈ engine.eventsOf (engine.siteMap body) ↔ ∃ index, engine.Pairs body index event := by
  rw [mem_eventsOf_iff]
  constructor
  · rintro ⟨entry, entryIn, held⟩
    exact ⟨entry.1, (engine.mem_siteMap_iff entryIn event).mp held⟩
  · rintro ⟨index, paired⟩
    obtain ⟨events, entryIn, held⟩ := (engine.holds_siteMap_iff body index event).mpr paired
    exact ⟨(index, events), entryIn, held⟩

namespace Alike

theorem note (alike : first.Alike second) (some others : List Diagnostic) :
    (first.note some).Alike (second.note others) :=
  ⟨alike.settings_eq, alike.events_eq, alike.proxies_eq, alike.mem_injections_iff⟩

theorem withLoom (alike : first.Alike second) (loom : Loom) :
    (first.withLoom loom).Alike (second.withLoom loom) :=
  ⟨alike.settings_eq, rfl, rfl, alike.mem_injections_iff⟩

theorem pairs_iff (alike : first.Alike second) (body : Body) (index : Nat) (event : EventId) :
    second.Pairs body index event ↔ first.Pairs body index event := by
  simp only [Pairs, sitesOf, alike.settings_eq, alike.events_eq, alike.mem_injections_iff]

theorem siteMap (alike : first.Alike second) (body : Body) :
    (first.siteMap body).Alike (second.siteMap body) := by
  refine (first.proper_siteMap body).alike (second.proper_siteMap body) ?_
  intro index event
  rw [holds_siteMap_iff, holds_siteMap_iff, alike.pairs_iff]

theorem eventsOf_eq (alike : first.Alike second) (orderly : first.Orderly) (body : Body) :
    second.eventsOf (second.siteMap body) = first.eventsOf (first.siteMap body) := by
  have registered : ∀ id ∈ first.eventsOf (first.siteMap body), id ∈ first.events.registered :=
    fun _ => orderly.registered_of_mem_eventsOf
  have sameMembers : ∀ event, event ∈ first.eventsOf (first.siteMap body) ↔
      event ∈ second.eventsOf (second.siteMap body) := by
    intro event
    rw [mem_eventsOf_siteMap_iff, mem_eventsOf_siteMap_iff]
    exact exists_congr fun index => (alike.pairs_iff body index event).symm
  unfold eventsOf EventStore.sort at registered sameMembers
  simp only [List.mem_mergeSort] at registered sameMembers
  unfold eventsOf
  rw [alike.events_eq]
  exact (orderly.events.sort_eq_of_perm registered (nodup_eraseDups _)
    ((List.perm_ext_iff_of_nodup (nodup_eraseDups _) (nodup_eraseDups _)).mpr sameMembers)).symm

/-- Transforming a body comes to the same and leaves the engines alike. -/
theorem transform (alike : first.Alike second) (orderly : first.Orderly) (body : Body) :
    (second.transform body).1 = (first.transform body).1 ∧
      (second.transform body).2.2 = (first.transform body).2.2 ∧
      (first.transform body).2.1.Alike (second.transform body).2.1 := by
  have sites := alike.siteMap body
  have loomEq : (second.note (second.foundReports body)).loom body =
      (first.note (first.foundReports body)).loom body := by
    simp only [loom, Engine.note, alike.events_eq, alike.proxies_eq]
  have lengths : (second.siteMap body).length = (first.siteMap body).length := sites.length_eq.symm
  have emptyEq : (second.siteMap body).isEmpty = (first.siteMap body).isEmpty := by
    rw [Bool.eq_iff_iff, List.isEmpty_iff_length_eq_zero, List.isEmpty_iff_length_eq_zero, lengths]
  have lent : ∀ id ∈ first.eventsOf (first.siteMap body), id ∈ first.events.registered :=
    fun _ => orderly.registered_of_mem_eventsOf
  unfold Engine.transform
  dsimp only
  rw [alike.eventsOf_eq orderly body, emptyEq, loomEq, lengths]
  split
  · exact ⟨rfl, rfl, alike.note _ _⟩
  rcases attachedAll : ((first.note (first.foundReports body)).loom body).attachAll []
    (first.eventsOf (first.siteMap body)) with ⟨_ | _, attached⟩
  · exact ⟨rfl, rfl, (alike.note _ _).withLoom _⟩
  obtain ⟨_, _, agrees, _, _⟩ := Loom.exists_of_attachAll
    (fun id member => orderly.events.inside id (lent id member)) attachedAll
  have wovenEq : attached.weave (first.siteMap body) = attached.weave (second.siteMap body) := by
    refine Loom.weave_congr (orderly.events.of_agrees agrees) sites fun entry member => ?_
    refine ⟨(first.proper_siteMap body).once entry member, fun id held => ?_⟩
    rw [agrees.registered_eq]
    exact lent id (first.mem_eventsOf_iff.mpr ⟨entry, member, held⟩)
  dsimp only
  rw [← wovenEq]
  rcases attached.weave (first.siteMap body) with ⟨_ | _, routines, entries, last⟩
  · exact ⟨rfl, rfl, ((alike.note _ _).note _ _).withLoom _⟩
  dsimp only
  rcases last.release (first.eventsOf (first.siteMap body)).reverse with ⟨_ | _, released⟩
  · exact ⟨rfl, rfl, ((alike.note _ _).note _ _).withLoom _⟩
  · exact ⟨rfl, rfl, ((alike.note _ _).note _ _).withLoom _⟩

end Alike

end Engine

/-- A call by which a host says which events there are, who listens and what is to be injected. -/
inductive Registration where
  | define (name : String) (cancellable : Bool) (priority : Int)
  | listen (event : EventId) (listener : Listener)
  | inject (event : EventId) (target : Target) (locator : Locator)

namespace Registration

/-- Whether the call says where an event is to be injected. -/
def injects : Registration → Bool
  | .inject .. => true
  | _ => false

end Registration

namespace Engine

variable {engine next other : Engine} {call : Registration} {calls rest : List Registration}
  {event : EventId} {injection : Injection} {final : List EventId}

/-- The engine after a call, be it accepted or refused. -/
def accept (engine : Engine) : Registration → Engine
  | .define name cancellable priority => (engine.defineEvent name cancellable priority).2
  | .listen event listener => (engine.addListener event listener).2
  | .inject event target locator => (engine.registerInjection event target locator).2

/-- The engine after several calls. -/
def acceptAll (engine : Engine) (calls : List Registration) : Engine := calls.foldl accept engine

/-- A host that will have registered the final events injects none of them before it has its
handle. -/
def Handled (final : List EventId) (engine : Engine) : List Registration → Prop
  | [] => True
  | call :: rest =>
      (∀ event target locator, call = .inject event target locator → event ∈ final →
        event ∈ engine.events.registered) ∧
      Handled final (engine.accept call) rest

/-- What a call leaves, whether or not it is accepted. -/
structure Accepts (engine : Engine) (call : Registration) (next : Engine) : Prop where
  settings_eq : next.settings = engine.settings
  proxies_eq : next.proxies = engine.proxies
  orderly : next.Orderly
  stays : ∀ event ∈ engine.events.registered, event ∈ next.events.registered
  mem_injections_iff : ∀ injection, injection ∈ next.injections ↔
    injection ∈ engine.injections ∨
      call = .inject injection.event injection.target injection.locator ∧
        injection.event ∈ engine.events.registered

/-- A handle is accepted if it is that of a registered event. -/
theorem Orderly.ensureOwned_eq (orderly : engine.Orderly) (event : EventId) :
    engine.ensureOwned event =
      if event ∈ engine.events.registered then .ok ()
      else .error (.unknownEvent (engine.events.get event).name) := by
  unfold ensureOwned
  simp only [orderly.events.owns_iff]

/-- What a call that registers no injection leaves. -/
theorem Orderly.accepts (orderly : next.Orderly) (settingsEq : next.settings = engine.settings)
    (proxiesEq : next.proxies = engine.proxies) (injectionsEq : next.injections = engine.injections)
    (stays : ∀ event ∈ engine.events.registered, event ∈ next.events.registered)
    (idle : ∀ event target locator, call = .inject event target locator →
      event ∉ engine.events.registered) : engine.Accepts call next where
  settings_eq := settingsEq
  proxies_eq := proxiesEq
  orderly := orderly
  stays := stays
  mem_injections_iff := by
    intro injection
    rw [injectionsEq]
    refine (or_iff_left ?_).symm
    rintro ⟨callEq, registered⟩
    exact idle _ _ _ callEq registered

theorem Orderly.accept (orderly : engine.Orderly) (call : Registration) :
    engine.Accepts call (engine.accept call) := by
  cases call with
  | define name cancellable priority =>
      refine (orderly.define rfl).accepts rfl rfl rfl ?_ (by rintro _ _ _ ⟨⟩)
      exact (orderly.events.define rfl).2
  | listen event listener =>
      change engine.Accepts _ (engine.addListener event listener).2
      rcases added : engine.addListener event listener with ⟨result, next⟩
      obtain ⟨_, _, _, rfl⟩ | ⟨_, _, rfl⟩ := addListener_cases added
      · exact orderly.accepts rfl rfl rfl (fun _ member => member) (by rintro _ _ _ ⟨⟩)
      · exact (orderly.listen event listener).accepts rfl rfl rfl (fun _ member => member)
          (by rintro _ _ _ ⟨⟩)
  | inject event target locator =>
      change engine.Accepts _ (engine.registerInjection event target locator).2
      rcases asked : engine.registerInjection event target locator with ⟨result, next⟩
      have orderlyNext := orderly.register asked
      obtain ⟨error, unowned, _, rfl⟩ | ⟨owned, _, rfl⟩ := registerInjection_cases asked
      · refine orderly.accepts rfl rfl rfl (fun _ member => member) ?_
        rintro _ _ _ ⟨⟩ registered
        rw [orderly.ensureOwned_eq, if_pos registered] at unowned
        cases unowned
      · have registered := EventStore.mem_registered_of_owns (owns_of_ensureOwned owned)
        refine ⟨rfl, rfl, orderlyNext, fun _ member => member, ?_⟩
        rintro ⟨paired, place, found⟩
        simp only [List.mem_append, List.mem_singleton, Injection.mk.injEq,
          Registration.inject.injEq]
        refine or_congr_right ?_
        constructor
        · rintro ⟨rfl, rfl, rfl⟩
          exact ⟨⟨rfl, rfl, rfl⟩, registered⟩
        · rintro ⟨⟨rfl, rfl, rfl⟩, _⟩
          exact ⟨rfl, rfl, rfl⟩

theorem events_accept_of_injects (injects : call.injects = true) :
    (engine.accept call).events = engine.events := by
  cases call with
  | define | listen => cases injects
  | inject event target locator =>
      unfold accept registerInjection
      dsimp only
      split <;> rfl

theorem events_accept_congr (same : other.events = engine.events)
    (injects : call.injects = false) :
    (other.accept call).events = (engine.accept call).events := by
  cases call with
  | inject => cases injects
  | define name cancellable priority =>
      unfold accept defineEvent
      rw [same]
  | listen event listener =>
      unfold accept addListener ensureOwned
      dsimp only
      rw [same]
      split
      · exact same
      · unfold Engine.listen
        rw [same]

/-- Events come from the calls that define them and give them listeners. -/
theorem events_acceptAll (same : other.events = engine.events) :
    (other.acceptAll calls).events =
      (engine.acceptAll (calls.filter fun call => !call.injects)).events := by
  induction calls generalizing engine other with
  | nil => exact same
  | cons call rest ih =>
      cases injects : call.injects with
      | true =>
          rw [List.filter_cons_of_neg (by simp [injects])]
          exact ih ((events_accept_of_injects injects).trans same)
      | false =>
          rw [List.filter_cons_of_pos (by simp [injects])]
          exact ih (events_accept_congr same injects)

/-- What calls leave: the injections of registered events among them. -/
theorem Orderly.acceptAll (orderly : engine.Orderly)
    (handled : engine.Handled (engine.acceptAll calls).events.registered calls) :
    (engine.acceptAll calls).settings = engine.settings ∧
    (engine.acceptAll calls).proxies = engine.proxies ∧
    (engine.acceptAll calls).Orderly ∧
    (∀ event ∈ engine.events.registered, event ∈ (engine.acceptAll calls).events.registered) ∧
    ∀ injection, injection ∈ (engine.acceptAll calls).injections ↔
      injection ∈ engine.injections ∨
        .inject injection.event injection.target injection.locator ∈ calls ∧
          injection.event ∈ (engine.acceptAll calls).events.registered := by
  induction calls generalizing engine with
  | nil => exact ⟨rfl, rfl, orderly, fun _ member => member, by simp [Engine.acceptAll]⟩
  | cons call rest ih =>
      have once := orderly.accept call
      obtain ⟨here, later⟩ := handled
      obtain ⟨settingsEq, proxiesEq, orderlyAll, stays, memIff⟩ := ih once.orderly later
      refine ⟨settingsEq.trans once.settings_eq, proxiesEq.trans once.proxies_eq, orderlyAll,
        fun event member => stays event (once.stays event member), ?_⟩
      intro injection
      refine (memIff injection).trans ?_
      rw [once.mem_injections_iff, List.mem_cons, or_assoc, or_and_right]
      refine or_congr_right (or_congr_left ?_)
      constructor
      · rintro ⟨rfl, registered⟩
        exact ⟨rfl, stays _ (once.stays _ registered)⟩
      · rintro ⟨rfl, registered⟩
        exact ⟨rfl, here _ _ _ rfl registered⟩

variable {settings : Settings} {others : List Registration}

/-- Hosts that make the same calls, those that register injections in another order or more than once,
come to engines that are alike. -/
theorem alike_of_calls
    (same : others.filter (fun call => !call.injects) = calls.filter fun call => !call.injects)
    (injections : ∀ call, call.injects = true → (call ∈ others ↔ call ∈ calls))
    (handled :
      (fresh settings).Handled ((fresh settings).acceptAll calls).events.registered calls)
    (otherHandled :
      (fresh settings).Handled ((fresh settings).acceptAll others).events.registered others) :
    ((fresh settings).acceptAll calls).Alike ((fresh settings).acceptAll others) := by
  have orderly := orderly_fresh settings
  obtain ⟨settingsEq, proxiesEq, _, _, memIff⟩ := orderly.acceptAll handled
  obtain ⟨otherSettings, otherProxies, _, _, otherMemIff⟩ := orderly.acceptAll otherHandled
  have eventsEq : ((fresh settings).acceptAll others).events =
      ((fresh settings).acceptAll calls).events := by
    have defined (made : List Registration) : ((fresh settings).acceptAll made).events =
        ((fresh settings).acceptAll (made.filter fun call => !call.injects)).events :=
      events_acceptAll rfl
    rw [defined others, defined calls, same]
  refine ⟨otherSettings.trans settingsEq.symm, eventsEq, otherProxies.trans proxiesEq.symm, ?_⟩
  intro injection
  rw [memIff, otherMemIff, eventsEq, injections _ rfl]

/-- The order in which injections are registered does not matter, nor how often each of them is.  Two
hosts with the same settings that define the same events and add the same listeners in the same order,
and register the same injections, transform every body to the same result, with the same woven body,
and have the same routines and proxies afterwards. -/
theorem transform_unordered
    (same : others.filter (fun call => !call.injects) = calls.filter fun call => !call.injects)
    (injections : ∀ call, call.injects = true → (call ∈ others ↔ call ∈ calls))
    (handled :
      (fresh settings).Handled ((fresh settings).acceptAll calls).events.registered calls)
    (otherHandled :
      (fresh settings).Handled ((fresh settings).acceptAll others).events.registered others)
    (body : Body) :
    let outcome := ((fresh settings).acceptAll calls).transform body
    let otherOutcome := ((fresh settings).acceptAll others).transform body
    otherOutcome.1 = outcome.1 ∧ otherOutcome.2.2 = outcome.2.2 ∧
      otherOutcome.2.1.proxies = outcome.2.1.proxies ∧
      otherOutcome.2.1.generateProxies.1 = outcome.2.1.generateProxies.1 := by
  have alike := alike_of_calls same injections handled otherHandled
  have orderly := ((orderly_fresh settings).acceptAll handled).2.2.1
  obtain ⟨resultEq, bodyEq, left⟩ := alike.transform orderly body
  refine ⟨resultEq, bodyEq, left.proxies_eq, ?_⟩
  unfold generateProxies
  rw [left.events_eq, left.proxies_eq]

/-- The calls of the host with two injections. -/
def twoCalls : List Registration :=
  [.define "e" false 0, .define "f" true (-1), .inject ⟨0⟩ countdownTarget .head,
    .inject ⟨1⟩ countdownTarget scattered]

/-- The same calls, in which the second event is injected first and once more in the end. -/
def shuffledCalls : List Registration :=
  [.define "e" false 0, .define "f" true (-1), .inject ⟨1⟩ countdownTarget scattered,
    .inject ⟨0⟩ countdownTarget .head, .inject ⟨1⟩ countdownTarget scattered]

theorem handled_of_injects (injects : ∀ call ∈ calls, call.injects = true)
    (finalEq : engine.events.registered = final) : engine.Handled final calls := by
  induction calls generalizing engine with
  | nil => trivial
  | cons call rest ih =>
      obtain ⟨here, later⟩ := List.forall_mem_cons.mp injects
      refine ⟨fun _ _ _ _ member => finalEq.symm ▸ member, ih later ?_⟩
      rw [events_accept_of_injects here]
      exact finalEq

theorem transform_unordered_shuffled :
    shuffledCalls.filter (fun call => !call.injects) =
      twoCalls.filter (fun call => !call.injects) ∧
    (∀ call, call.injects = true → (call ∈ shuffledCalls ↔ call ∈ twoCalls)) ∧
    (fresh .standard).Handled ((fresh .standard).acceptAll twoCalls).events.registered twoCalls ∧
    (fresh .standard).Handled ((fresh .standard).acceptAll shuffledCalls).events.registered
      shuffledCalls ∧
    (((fresh .standard).acceptAll shuffledCalls).transform .countdown).1 =
      .ok ⟨Body.countdown.text, true, 2, [⟨1⟩, ⟨2⟩]⟩ ∧
    (((fresh .standard).acceptAll shuffledCalls).transform .countdown).2.2 =
      ((hostOf twoEvents twoInjections).transform .countdown).2.2 := by
  have same : shuffledCalls.filter (fun call => !call.injects) =
      twoCalls.filter (fun call => !call.injects) := rfl
  have injections : ∀ call, call.injects = true →
      (call ∈ shuffledCalls ↔ call ∈ twoCalls) := by
    intro call _
    simp only [shuffledCalls, twoCalls, List.mem_cons]
    tauto
  have host : (fresh .standard).acceptAll twoCalls = hostOf twoEvents twoInjections := by cbv
  have finalEq : ((fresh .standard).acceptAll shuffledCalls).events.registered =
      ((fresh .standard).acceptAll twoCalls).events.registered := by cbv
  have defined : ((fresh .standard).acceptAll (twoCalls.take 2)).events.registered =
      ((fresh .standard).acceptAll twoCalls).events.registered := by cbv
  have handled : (fresh .standard).Handled
      ((fresh .standard).acceptAll twoCalls).events.registered twoCalls :=
    ⟨by rintro _ _ _ ⟨⟩, by rintro _ _ _ ⟨⟩,
      handled_of_injects (by simp [Registration.injects]) defined⟩
  have otherHandled : (fresh .standard).Handled
      ((fresh .standard).acceptAll shuffledCalls).events.registered shuffledCalls :=
    ⟨by rintro _ _ _ ⟨⟩, by rintro _ _ _ ⟨⟩,
      handled_of_injects (by simp [Registration.injects]) (defined.trans finalEq.symm)⟩
  obtain ⟨resultEq, bodyEq, _⟩ :=
    transform_unordered same injections handled otherHandled .countdown
  rw [host] at resultEq bodyEq
  exact ⟨same, injections, handled, otherHandled, resultEq.trans transform_twoInjections.1, bodyEq⟩

end Engine

end Weaver
