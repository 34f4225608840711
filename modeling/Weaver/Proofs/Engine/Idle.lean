import Weaver.Proofs.Engine.Reachable

/-!
# Transformations while no event is attached

When the registered events are attached to nothing, a transformation can attach all that it needs,
and it finds them attached to its body wherever it injects.  So only the body itself can be at fault:
every error is one of synthesis that names its method, and it is reported in one entry of the log.
-/

namespace Weaver

/-- A body is refused with an error of synthesis that names its method. -/
theorem Splice.exists_of_apply_error {splice : Splice} {body woven : Body} {index : Nat}
    {routine : MethodRef} {error : Error}
    (failed : splice.apply body index routine = (.error error, woven)) :
    ∃ fault, error = .synthesis body.text fault := by
  unfold apply refusal at failed
  dsimp only at failed
  -- every way out but the last is a refusal
  repeat' split at failed
  all_goals cases failed <;> exact ⟨_, rfl⟩

/-- None of the registered events is attached. -/
def EventStore.Idle (store : EventStore) : Prop :=
  ∀ id ∈ store.registered, (store.get id).attachment = none

namespace Loom

variable {loom after : Loom} {store : EventStore} {attachment : Attachment} {id : EventId}
  {ids held events : List EventId} {index : Nat} {cancellable : Bool} {routine : RoutineId}
  {routines : List RoutineId} {entries : List Diagnostic} {sites : SiteMap} {error : Error}

theorem exists_attachAll (idle : ∀ id ∈ ids, (loom.events.get id).attachment = none)
    (once : ids.Nodup) : ∃ after, loom.attachAll held ids = (.ok (), after) := by
  induction ids generalizing loom held with
  | nil => exact ⟨loom, rfl⟩
  | cons id rest ih =>
      obtain ⟨here, later⟩ := List.forall_mem_cons.mp idle
      obtain ⟨notLater, onceRest⟩ := List.nodup_cons.mp once
      rw [attachAll, attach_of_idle here]
      refine ih ?_ onceRest
      intro other member
      have differs : other ≠ id := fun same => notLater (same ▸ member)
      dsimp only
      rw [EventStore.get_put, if_neg fun both => differs both.1]
      exact later other member

/-- Events that are attached to the method of a routine can join it. -/
theorem exists_joinAll {arena : Arena} {present : Routine}
    (ready : store.Ready attachment ids loom.events) (among : ∀ id ∈ events, id ∈ ids)
    (adds : arena.Adds present loom.proxies) (target : attachment.method = present.target) :
    ∃ after, loom.joinAll present.id events = (.ok (), after) := by
  induction events generalizing loom present with
  | nil => exact ⟨loom, rfl⟩
  | cons id rest ih =>
      obtain ⟨here, later⟩ := List.forall_mem_cons.mp among
      obtain ⟨injections, attached⟩ := ready.attached id here
      have attachedTo : (loom.events.get id).attachedTo present.target =
          .ok { attachment with injections } := Event.attachedTo_eq_ok_iff.mpr ⟨attached, target⟩
      unfold joinAll join
      rw [adds.get_self]
      dsimp only
      rw [attachedTo]
      have added : arena.Adds (present.addEvent loom.events id)
          (loom.proxies.put (present.addEvent loom.events id)) := adds.put rfl
      exact @ih ({ loom with
        proxies := loom.proxies.put (present.addEvent loom.events id) }.count id)
        (present.addEvent loom.events id) (ready.count id) later added target

/-- An attached event can fail to be injected only for its body. -/
theorem exists_of_inject_error (attached : (loom.events.get id).attachment = some attachment)
    (here : attachment.method = loom.body.text)
    (failed : loom.inject id index cancellable = (.error error, after)) :
    ∃ fault, error = .synthesis loom.body.text fault := by
  have attachedTo := Event.attachedTo_eq_ok_iff.mpr ⟨attached, here⟩
  obtain ⟨added, proxies, _, _, _, outcome⟩ :=
    @inject_eq loom id index cancellable attachment attachedTo
  rw [outcome] at failed
  split at failed
  · rename_i refused
    cases failed
    exact Splice.exists_of_apply_error refused
  · cases failed

theorem exists_of_injectSite_error (ready : store.Ready (.ofBody loom.body) ids loom.events)
    (among : ∀ id ∈ events, id ∈ ids)
    (failed : loom.injectSite index events = (.error error, routines, entries, after)) :
    ∃ fault, error = .synthesis loom.body.text fault := by
  have sortedAmong : ∀ id ∈ loom.events.sort events, id ∈ ids :=
    fun id member => among id (List.mem_mergeSort.mp member)
  unfold injectSite at failed
  dsimp only at failed
  split at failed
  · cases failed
  · rename_i lead rest sortedEq
    rw [sortedEq] at sortedAmong
    obtain ⟨leadIn, restIn⟩ := List.forall_mem_cons.mp sortedAmong
    obtain ⟨injections, attached⟩ := ready.attached lead leadIn
    split at failed
    · rename_i refused
      cases failed
      exact exists_of_inject_error attached rfl refused
    · rename_i routine middle injected
      obtain ⟨_, added, _, _, _, eventsEq, rfl, adds, serves, _⟩ := exists_of_inject injected
      obtain ⟨last, joined⟩ :=
        exists_joinAll (eventsEq ▸ ready.count lead) restIn adds serves.target_eq.symm
      rw [joined] at failed
      cases failed

theorem exists_of_checkStack_error (failed : loom.checkStack = .error error) :
    ∃ fault, error = .synthesis loom.body.text fault := by
  unfold checkStack at failed
  split at failed
  · cases failed
    exact ⟨_, rfl⟩
  · split at failed
    · cases failed
      exact ⟨_, rfl⟩
    · cases failed

/-- Injections at several sites go through for the same method, or the body is at fault. -/
theorem injectSites_cases {result : Except Error Unit} (orderly : store.Orderly)
    (registered : ∀ id ∈ ids, id ∈ store.registered)
    (ready : store.Ready (.ofBody loom.body) ids loom.events)
    (proper : ∀ entry ∈ sites, entry.2 ≠ [] ∧ entry.2.Nodup ∧ ∀ id ∈ entry.2, id ∈ ids)
    (done : loom.injectSites sites = (result, routines, entries, after)) :
    result = .ok () ∧ after.body.text = loom.body.text ∨
      ∃ fault, result = .error (.synthesis loom.body.text fault) := by
  induction sites generalizing loom routines entries with
  | nil =>
      cases done
      exact .inl ⟨rfl, rfl⟩
  | cons site rest ih =>
      obtain ⟨index, events⟩ := site
      obtain ⟨⟨filled, once, among⟩, properRest⟩ := List.forall_mem_cons.mp proper
      unfold injectSites at done
      split at done
      · rename_i refused
        cases done
        obtain ⟨fault, rfl⟩ := exists_of_injectSite_error ready among refused
        exact .inr ⟨fault, rfl⟩
      · rename_i first noted middle here
        split at done
        rename_i behind
        cases done
        obtain ⟨_, _, _, _, _, _, effect, _, _, readyNext⟩ :=
          exists_of_injectSite orderly registered ready among once filled here
        have bound : Attachment.ofBody middle.body = .ofBody loom.body := by
          rw [effect.woven_eq]
          rfl
        have textEq : middle.body.text = loom.body.text := congrArg Attachment.method bound
        rw [← textEq]
        exact ih (bound.symm ▸ readyNext) properRest behind

/-- A body that cannot be woven is at fault itself, before or after its sites were filled. -/
theorem exists_of_weave_error (orderly : store.Orderly)
    (registered : ∀ id ∈ ids, id ∈ store.registered)
    (ready : store.Ready (.ofBody loom.body) ids loom.events) (proper : sites.Proper)
    (among : ∀ entry ∈ sites, ∀ id ∈ entry.2, id ∈ ids)
    (failed : loom.weave sites = (.error error, routines, entries, after)) :
    ∃ fault, error = .synthesis loom.body.text fault := by
  have each : ∀ entry ∈ sites.reverse, entry.2 ≠ [] ∧ entry.2.Nodup ∧ ∀ id ∈ entry.2, id ∈ ids :=
    fun entry member =>
      have entryIn := List.mem_reverse.mp member
      ⟨proper.filled entry entryIn, proper.once entry entryIn, among entry entryIn⟩
  unfold weave at failed
  split at failed
  · rename_i refused
    cases failed
    obtain ⟨⟨⟩, _⟩ | ⟨fault, ⟨⟩⟩ := injectSites_cases orderly registered ready each refused
    exact ⟨fault, rfl⟩
  · rename_i injected
    obtain ⟨checked, same⟩ := Prod.mk.inj failed
    cases same
    obtain ⟨_, textEq⟩ | ⟨_, ⟨⟩⟩ := injectSites_cases orderly registered ready each injected
    rw [← textEq]
    exact exists_of_checkStack_error checked

theorem severity_ne_error_of_injectSite {result : Except Error Unit}
    (done : loom.injectSite index events = (result, routines, entries, after)) :
    ∀ entry ∈ entries, entry.severity ≠ .error := by
  unfold injectSite at done
  dsimp only at done
  repeat' split at done
  all_goals
    cases done
    simp [siteReports]

/-- Injections report no error themselves. -/
theorem severity_ne_error_of_injectSites {result : Except Error Unit}
    (done : loom.injectSites sites = (result, routines, entries, after)) :
    ∀ entry ∈ entries, entry.severity ≠ .error := by
  induction sites generalizing loom routines entries with
  | nil =>
      cases done
      exact List.forall_mem_nil _
  | cons site rest ih =>
      obtain ⟨index, events⟩ := site
      unfold injectSites at done
      split at done
      · rename_i refused
        cases done
        exact severity_ne_error_of_injectSite refused
      · rename_i here
        split at done
        rename_i behind
        cases done
        exact List.forall_mem_append.mpr ⟨severity_ne_error_of_injectSite here, ih behind⟩

theorem severity_ne_error_of_weave {result : Except Error Unit}
    (done : loom.weave sites = (result, routines, entries, after)) :
    ∀ entry ∈ entries, entry.severity ≠ .error := by
  unfold weave at done
  split at done
  · rename_i refused
    cases done
    exact severity_ne_error_of_injectSites refused
  · rename_i injected
    cases done
    exact severity_ne_error_of_injectSites injected

end Loom

namespace Engine

variable {engine next : Engine} {body woven : Body} {result : Except Error TransformReport}

theorem ofSeverity_note (engine : Engine) (entries : List Diagnostic) (severity : Severity) :
    (engine.note entries).log.ofSeverity severity =
      engine.log.ofSeverity severity ++ entries.filter (·.severity = severity) := by
  rw [note, Log.ofSeverity, Log.toList_append, List.filter_append]
  rfl

theorem severity_ne_error_of_mem_foundReports {entry : Diagnostic}
    (member : entry ∈ engine.foundReports body) : entry.severity ≠ .error := by
  unfold foundReports at member
  split at member
  · obtain ⟨injection, _, rfl⟩ := List.mem_map.mp member
    nofun
  · cases member

theorem filter_error_eq_nil {entries : List Diagnostic}
    (harmless : ∀ entry ∈ entries, entry.severity ≠ .error) :
    entries.filter (·.severity = .error) = [] := by
  apply List.filter_eq_nil_iff.mpr
  intro entry member
  exact fun isError => harmless entry member (of_decide_eq_true isError)

/-- While no event is attached a transformation succeeds without reporting an error, or the body is at
fault and that is the one error that is reported. -/
theorem Orderly.transform_of_idle (orderly : engine.Orderly) (idle : engine.events.Idle)
    (done : engine.transform body = (result, next, woven)) :
    (∃ report, result = .ok report) ∧
        next.log.ofSeverity .error = engine.log.ofSeverity .error ∨
      ∃ fault, result = .error (.synthesis body.text fault) ∧
        next.log.ofSeverity .error = engine.log.ofSeverity .error ++
          failureReports body (.synthesis body.text fault) := by
  have registered : ∀ id ∈ engine.eventsOf (engine.siteMap body), id ∈ engine.events.registered :=
    fun id member => orderly.registered_of_mem_eventsOf member
  have found : (engine.note (engine.foundReports body)).log.ofSeverity .error =
      engine.log.ofSeverity .error := by
    rw [ofSeverity_note, filter_error_eq_nil fun _ => severity_ne_error_of_mem_foundReports,
      List.append_nil]
  cases transforms_of_transform done with
  | bare => exact .inl ⟨⟨_, rfl⟩, found⟩
  | refused _ refused =>
      obtain ⟨after, attached⟩ := @Loom.exists_attachAll (engine.loom body) _ []
        (fun id member => idle id (registered id member)) (engine.nodup_eventsOf _)
      cases refused.symm.trans attached
  | woven _ _ _ weft =>
      refine .inl ⟨⟨_, rfl⟩, ?_⟩
      refine (ofSeverity_note _ _ _).trans ?_
      rw [filter_error_eq_nil (Loom.severity_ne_error_of_weave weft), List.append_nil, found]
  | failed _ attached _ weft =>
      obtain ⟨_, _, ready⟩ := orderly.ready_of_attachAll attached
      obtain ⟨fault, rfl⟩ := Loom.exists_of_weave_error orderly.events registered ready
        (engine.proper_siteMap body)
        (fun entry member id held => engine.mem_eventsOf_iff.mpr ⟨entry, member, held⟩) weft
      refine .inr ⟨fault, rfl, ?_⟩
      refine (ofSeverity_note _ _ _).trans ?_
      rw [List.filter_append, filter_error_eq_nil (Loom.severity_ne_error_of_weave weft), found]
      rfl
  | unreleased _ _ absent _ =>
      obtain ⟨id, member, missing⟩ := absent
      exact absurd missing (orderly.get?_ne_none member)

end Engine

end Weaver
