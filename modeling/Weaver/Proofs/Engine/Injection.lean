import Weaver.Engine.Loom

/-!
# The routine of an injection

An injection allocates a routine behind those that are there and leaves them as they are.  The run
that it inserts is made from its event and calls that routine.
-/

namespace Weaver

namespace Arena

variable {arena before after : Arena} {routine changed : Routine} {id : RoutineId}

/-- A routine that is put into the place of its own number is the only one that changes. -/
theorem get_put (arena : Arena) (positive : 0 < routine.id.number) (id : RoutineId) :
    (arena.put routine).get id =
      if id = routine.id ∧ routine.id.number ≤ arena.routines.size then routine
      else arena.get id := by
  unfold get get? put
  rw [Array.getElem?_setIfInBounds]
  by_cases same : id = routine.id
  · subst same
    have nonzero : routine.id.number ≠ 0 := by omega
    by_cases inside : routine.id.number ≤ arena.routines.size
    · have within : routine.id.number - 1 < arena.routines.size := by omega
      simp [nonzero, inside, within]
    · have beyond : ¬ routine.id.number - 1 < arena.routines.size := by omega
      simp [nonzero, inside, beyond]
  · have elsewhere : ¬ (id = routine.id ∧ routine.id.number ≤ arena.routines.size) :=
      fun both => same both.1
    rw [if_neg elsewhere]
    by_cases zero : id.number = 0
    · rw [if_pos zero, if_pos zero]
    · have away : routine.id.number - 1 ≠ id.number - 1 := by
        intro equal
        have numbers : id.number = routine.id.number := by omega
        exact same (congrArg RoutineId.mk numbers)
      rw [if_neg zero, if_neg zero, if_neg away]

/-- The arena has one more routine, and the others are as they were. -/
structure Adds (before : Arena) (routine : Routine) (after : Arena) : Prop where
  id_eq : routine.id = ⟨before.routines.size + 1⟩
  size_eq : after.routines.size = before.routines.size + 1
  get_self : after.get routine.id = routine
  get_other : ∀ id : RoutineId, id.number ≤ before.routines.size → after.get id = before.get id

theorem adds_of_push (idEq : routine.id = ⟨before.routines.size + 1⟩)
    (pushed : after.routines = before.routines.push routine) : Adds before routine after := by
  refine ⟨idEq, ?_, ?_, ?_⟩
  · rw [pushed, Array.size_push]
  · rw [get, get?, idEq, pushed]
    simp
  · intro id old
    rw [get, get, get?, get?, pushed]
    by_cases zero : id.number = 0
    · rw [if_pos zero, if_pos zero]
    · have within : id.number - 1 ≠ before.routines.size := by omega
      rw [if_neg zero, if_neg zero, Array.getElem?_push, if_neg within]

theorem Adds.put (adds : Adds before routine after) (same : changed.id = routine.id) :
    Adds before changed (after.put changed) := by
  have number : changed.id.number = before.routines.size + 1 := by rw [same, adds.id_eq]
  have positive : 0 < changed.id.number := by omega
  constructor
  · rw [same, adds.id_eq]
  · exact Array.size_setIfInBounds.trans adds.size_eq
  · have inside := Nat.le_of_eq (number.trans adds.size_eq.symm)
    rw [get_put after positive, if_pos ⟨rfl, inside⟩]
  · intro id old
    have away : id ≠ changed.id := by
      rintro rfl
      omega
    rw [get_put after positive, if_neg fun equal => away equal.1, adds.get_other id old]

end Arena

/-- The routine is one for a site of the body. -/
structure Routine.Serves (body : Body) (wrapper : Wrapper) (site : Nat) (cancellable : Bool)
    (routine : Routine) : Prop where
  target_eq : routine.target = body.text
  site_eq : routine.site = site
  signature_eq : routine.signature = signatureFor wrapper body
  cancellable_eq : routine.cancellable = cancellable

/-- A routine that is allocated is added without events. -/
theorem Arena.exists_adds_allocate (arena : Arena) (body : Body) (wrapper : Wrapper) (site : Nat)
    (cancellable : Bool) :
    ∃ routine : Routine, (arena.allocate body wrapper site cancellable).1 = routine.id ∧
      Adds arena routine (arena.allocate body wrapper site cancellable).2 ∧
      routine.Serves body wrapper site cancellable ∧ routine.events = [] := by
  refine ⟨_, ?_, adds_of_push ?_ rfl, ⟨?_, ?_, ?_, ?_⟩, ?_⟩
  all_goals rfl

/-- An event is attached to the method of a body if it has an attachment there. -/
theorem Event.attachedTo_eq_ok_iff {event : Event} {method : String} {attachment : Attachment} :
    event.attachedTo method = .ok attachment ↔
      event.attachment = some attachment ∧ attachment.method = method := by
  unfold attachedTo
  cases event.attachment with
  | none => simp
  | some present =>
      dsimp only
      split
      · rename_i here
        simp only [Except.ok.injEq, Option.some.injEq]
        exact ⟨fun same => ⟨same, same ▸ here⟩, And.left⟩
      · rename_i elsewhere
        simp only [reduceCtorEq, Option.some.injEq, false_iff, not_and]
        rintro rfl
        exact elsewhere

namespace Loom

variable {loom after : Loom} {id : EventId} {index : Nat} {cancellable : Bool}
  {routine : RoutineId}

/-- The injection of an attached event allocates a routine with that one event and applies the splice
of the event.  If that fails the routine is discarded, and else the injection is counted. -/
theorem inject_eq {attachment : Attachment}
    (attached : (loom.events.get id).attachedTo loom.body.text = .ok attachment) :
    ∃ (added : Routine) (proxies : Arena),
      loom.proxies.Adds added proxies ∧
      added.Serves loom.body attachment.wrapper index cancellable ∧
      added.events = [((loom.events.get id).rank, id)] ∧
      loom.inject id index cancellable =
        match (Splice.mk (loom.events.get id).name attachment cancellable).apply loom.body index
          added.ref with
        | (.error error, body) =>
            (.error error, { loom with proxies := proxies.discard added.id, body })
        | (.ok _, body) => (.ok added.id, { loom with proxies, body }.count id) := by
  obtain ⟨fresh, idEq, adds, serves, noEvents⟩ :=
    loom.proxies.exists_adds_allocate loom.body attachment.wrapper index cancellable
  have present : (loom.proxies.allocate loom.body attachment.wrapper index cancellable).2.get
      fresh.id = fresh := adds.get_self
  have added : loom.proxies.Adds (fresh.addEvent loom.events id) _ := adds.put rfl
  have changed : ((loom.proxies.allocate loom.body attachment.wrapper index cancellable).2.put
      (fresh.addEvent loom.events id)).get fresh.id = fresh.addEvent loom.events id :=
    added.get_self
  refine ⟨_, _, added, ?_, ?_, ?_⟩
  · exact ⟨serves.target_eq, serves.site_eq, serves.signature_eq, serves.cancellable_eq⟩
  · rw [Routine.addEvent, noEvents]
    rfl
  · unfold inject allocate
    simp only [attached, idEq, present, changed]
    rfl

theorem attachedTo_of_inject (injected : loom.inject id index cancellable = (.ok routine, after)) :
    ∃ attachment, (loom.events.get id).attachedTo loom.body.text = .ok attachment := by
  cases attached : (loom.events.get id).attachedTo loom.body.text with
  | error error =>
      rw [inject, attached] at injected
      cases injected
  | ok attachment => exact ⟨attachment, rfl⟩

/-- An injection that succeeds adds a routine with its one event, applies the splice of the event, and
counts. -/
theorem exists_of_inject (injected : loom.inject id index cancellable = (.ok routine, after)) :
    ∃ (attachment : Attachment) (added : Routine) (report : Splice.Report),
      (loom.events.get id).attachment = some attachment ∧
      (Splice.mk (loom.events.get id).name attachment cancellable).apply loom.body index
        added.ref = (.ok report, after.body) ∧
      after.events = loom.events.put id (loom.events.get id).countInjection ∧
      routine = added.id ∧ loom.proxies.Adds added after.proxies ∧
      added.Serves loom.body attachment.wrapper index cancellable ∧
      added.events = [((loom.events.get id).rank, id)] := by
  obtain ⟨attachment, attached⟩ := attachedTo_of_inject injected
  obtain ⟨added, proxies, adds, serves, alone, outcome⟩ :=
    @inject_eq loom id index cancellable attachment attached
  rw [outcome] at injected
  split at injected
  · cases injected
  · rename_i report body applied
    cases injected
    exact ⟨attachment, added, report, (Event.attachedTo_eq_ok_iff.mp attached).1, applied, rfl, rfl,
      adds, serves, alone⟩

/-- An injection applies the splice of its event, with a routine for the method. -/
theorem apply_of_inject {attachment : Attachment}
    (attached : (loom.events.get id).attachment = some attachment)
    (injected : loom.inject id index cancellable = (.ok routine, after)) :
    (∃ report, (Splice.mk (loom.events.get id).name attachment cancellable).apply loom.body index
        (after.proxies.get routine).ref = (.ok report, after.body)) ∧
      (after.proxies.get routine).signature =
        Routine.signatureFor attachment.wrapper loom.body := by
  obtain ⟨same, added, report, attachedSame, applied, _, rfl, adds, serves, _⟩ :=
    exists_of_inject injected
  obtain rfl := Option.some.inj (attached.symm.trans attachedSame)
  rw [adds.get_self]
  exact ⟨⟨report, applied⟩, serves.signature_eq⟩

end Loom

end Weaver
