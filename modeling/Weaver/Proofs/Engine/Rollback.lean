import Weaver.Proofs.Engine.Reachable
import Weaver.Proofs.Engine.Transformed

/-!
# Transformations that fail

A transformation works on a copy of the body, with events that are attached for its time and with
routines that live from the moment they are allocated.  Wherever it fails, the copy is dropped, the
events are detached and the routines are discarded; where it succeeds only the events are.

Routines are compared by their numbers, so that the results are about engines in which fewer than
`2 ^ 32` of them have been allocated.
-/

namespace Weaver

/-- The types that there were have the routines that they had, and behind them some of those that
were added. -/
theorem Arena.Grown.exists_type {before after : Arena} {added : List RoutineId}
    (grown : before.Grown added after) (sound : before.Sound) {type : ProxyType}
    (typeIn : type ∈ before.types) :
    ∃ more, ProxyType.mk type.name (type.members ++ more) ∈ after.types := by
  have named := grown.names_prefix.subset (List.mem_map_of_mem typeIn)
  obtain ⟨later, laterIn, sameName⟩ := List.mem_map.mp named
  have members : later.members = type.members ++
      added.filter fun id => (after.get id).proxyClass = type.name := by
    rw [grown.sound.members_eq laterIn, grown.live_eq, List.filter_append, sameName,
      sound.members_eq typeIn]
    congr 1
    apply List.filter_congr
    intro id lives
    rw [grown.get_old id (sound.known id lives).2]
  refine ⟨added.filter fun id => (after.get id).proxyClass = type.name, ?_⟩
  rw [← members, ← sameName]
  exact laterIn

namespace Engine

variable {engine next : Engine} {body woven : Body} {result : Except Error TransformReport}

/-- All that a transformation leaves as it is, whether or not it succeeds: what was defined and
registered, the attachments of all events, and the routines that were there.  Entries are added to the
log, numbers are given out and types are opened. -/
structure Undisturbed (engine next : Engine) : Prop where
  settings_eq : next.settings = engine.settings
  events_eq : next.events = engine.events
  targets_eq : next.targets = engine.targets
  injections_eq : next.injections = engine.injections
  redirects_eq : next.redirects = engine.redirects
  className_eq : next.proxies.className = engine.proxies.className
  namePrefix_eq : next.proxies.namePrefix = engine.proxies.namePrefix
  capacity_eq : next.proxies.capacity = engine.proxies.capacity
  get_old : ∀ id, engine.proxies.Knows id → next.proxies.get id = engine.proxies.get id
  known : ∀ id, engine.proxies.Knows id → next.proxies.Knows id
  names_prefix : engine.proxies.types.map ProxyType.name <+: next.proxies.types.map ProxyType.name
  /-- The routines that live stay in their types. -/
  stays : ∀ type ∈ engine.proxies.types, ∃ more,
    ProxyType.mk type.name (type.members ++ more) ∈ next.proxies.types
  entries_prefix : engine.log.entries.toList <+: next.log.entries.toList

theorem Coherent.undisturbed (coherent : engine.Coherent)
    (done : engine.transform body = (result, next, woven)) : engine.Undisturbed next := by
  have grown := coherent.grown done
  have same : next.settings = engine.settings ∧ next.events = engine.events ∧
      next.targets = engine.targets ∧ next.injections = engine.injections ∧
      next.redirects = engine.redirects ∧
      engine.log.entries.toList <+: next.log.entries.toList := by
    cases transforms_of_transform done
    all_goals
      refine ⟨rfl, rfl, rfl, rfl, rfl, ?_⟩
      simp only [note, Log.toList_append, List.append_assoc]
      exact List.prefix_append _ _
  obtain ⟨settingsEq, eventsEq, targetsEq, injectionsEq, redirectsEq, entries⟩ := same
  exact
    { settings_eq := settingsEq
      events_eq := eventsEq
      targets_eq := targetsEq
      injections_eq := injectionsEq
      redirects_eq := redirectsEq
      className_eq := grown.className_eq
      namePrefix_eq := grown.namePrefix_eq
      capacity_eq := grown.capacity_eq
      get_old := fun id known => grown.get_old id known.2
      known := fun id known => ⟨known.1, known.2.trans grown.size_le⟩
      names_prefix := grown.names_prefix
      stays := fun _ => grown.exists_type coherent.sound
      entries_prefix := entries }

/-- A transformation does all or nothing while numbers of routines are left.  Whatever the outcome, the attachments of all events and the
routines that were there are as they were.  If it fails, for whatever reason and at whichever site or
event, the body is the one that was given, the same routines live in the same types, and a type that
was opened is empty.  If it succeeds, the routines that it reports live behind those that lived
before, and they are new. -/
theorem transform_allOrNothing (reachable : engine.Reachable)
    (done : engine.transform body = (result, next, woven)) :
    engine.Undisturbed next ∧
    (∀ error, result = .error error → woven = body ∧
      next.proxies.live = engine.proxies.live ∧
      ∃ opened, next.proxies.types = engine.proxies.types ++ opened ∧
        ∀ type ∈ opened, type.members = []) ∧
    ∀ report, result = .ok report →
      next.proxies.live = engine.proxies.live ++ report.routines ∧
      report.routines.Nodup ∧ ∀ id ∈ report.routines, ¬ engine.proxies.Knows id := by
  have coherent := reachable.coherent
  have grown := coherent.grown done
  refine ⟨coherent.undisturbed done, ?_, ?_⟩
  · rintro error rfl
    exact ⟨eq_of_transform_error done, grown.live_eq.trans (List.append_nil _),
      grown.exists_opened coherent.sound⟩
  · rintro report rfl
    exact ⟨grown.live_eq, grown.nodup, fun id member known =>
      absurd (grown.new id member) (Nat.not_lt_of_le known.2)⟩

/-- A host whose first event is lent to another method, and which asks for both at the start. -/
def heldHost : Engine :=
  hostOf
    [{ Event.ofName "e" false 0 0 with attachment := some (.ofBody default) },
      .ofName "f" true (-1) 1]
    twoInjections

theorem reachable_heldHost : heldHost.Reachable := by
  have attached : (hostOf twoEvents twoInjections).attach ⟨0⟩ default = (.ok (), heldHost) := by cbv
  exact .step hosted_twoInjections.reachable (.prepare (.attach attached))

/-- The second event is attached first, and detached when the first one is refused. -/
theorem transform_allOrNothing_heldHost :
    heldHost.Reachable ∧
      (heldHost.transform .countdown).1 =
        .error (.eventAlreadyAttached "e" (default : Body).text Body.countdown.text) ∧
      (heldHost.transform .countdown).2.1.events = heldHost.events ∧
      (heldHost.transform .countdown).2.1.proxies.live = heldHost.proxies.live ∧
      (heldHost.transform .countdown).2.2 = .countdown := by
  have failed : (heldHost.transform .countdown).1 =
      .error (.eventAlreadyAttached "e" (default : Body).text Body.countdown.text) := by cbv
  obtain ⟨undisturbed, failure, _⟩ :=
    transform_allOrNothing reachable_heldHost (Prod.ext failed rfl)
  obtain ⟨bodyEq, liveEq, _⟩ := failure _ rfl
  exact ⟨reachable_heldHost, failed, undisturbed.events_eq, liveEq, bodyEq⟩

end Engine

end Weaver
