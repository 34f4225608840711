import Weaver.Engine.Transform

/-!
# What injections keep

All that injections do to events and routines is to allocate a routine, to add events to it, to
discard it again if its run cannot be inserted, and to count.  What these four steps keep is kept by
injections at any number of sites, also by those that fail halfway.
-/

namespace Weaver.Loom

variable {loom after : Loom} {id : EventId} {among events : List EventId} {index : Nat}
  {cancellable : Bool} {routine : RoutineId} {routines added : List RoutineId}
  {entries : List Diagnostic} {sites : SiteMap}

/-- A property of the events, the arena and the routines that were added to it so far, which holds
after every step of an injection of certain events if it held before. -/
structure Invariant (among : List EventId)
    (Keeps : EventStore → Arena → List RoutineId → Prop) : Prop where
  allocate : ∀ {events : EventStore} {arena : Arena} {added : List RoutineId} (body : Body)
    (wrapper : Wrapper) (site : Nat) (cancellable : Bool), Keeps events arena added →
    Keeps events (arena.allocate body wrapper site cancellable).2
      (added ++ [(arena.allocate body wrapper site cancellable).1])
  addEvent : ∀ {events : EventStore} {arena : Arena} {added : List RoutineId} {routine : RoutineId}
    (id : EventId), routine ∈ added → Keeps events arena added →
    Keeps events (arena.put ((arena.get routine).addEvent events id)) added
  discard : ∀ {events : EventStore} {arena : Arena} {added : List RoutineId} {routine : RoutineId},
    Keeps events arena (added ++ [routine]) → Keeps events (arena.discard routine) added
  count : ∀ {events : EventStore} {arena : Arena} {added : List RoutineId} {id : EventId},
    id ∈ among → Keeps events arena added →
    Keeps (events.put id (events.get id).countInjection) arena added

namespace Invariant

variable {Keeps : EventStore → Arena → List RoutineId → Prop}

/-- Two properties that are kept are kept together. -/
theorem and {Holds : EventStore → Arena → List RoutineId → Prop}
    (first : Invariant among Keeps) (second : Invariant among Holds) :
    Invariant among fun events arena added => Keeps events arena added ∧ Holds events arena added
    where
  allocate := fun body wrapper site cancellable both =>
    ⟨first.allocate body wrapper site cancellable both.1,
      second.allocate body wrapper site cancellable both.2⟩
  addEvent := fun id member both =>
    ⟨first.addEvent id member both.1, second.addEvent id member both.2⟩
  discard := fun both => ⟨first.discard both.1, second.discard both.2⟩
  count := fun member both => ⟨first.count member both.1, second.count member both.2⟩

/-- An injection adds its routine, or no routine if it fails. -/
theorem inject (invariant : Invariant among Keeps) {result : Except Error RoutineId}
    (member : id ∈ among) (kept : Keeps loom.events loom.proxies added)
    (injected : loom.inject id index cancellable = (result, after)) :
    Keeps after.events after.proxies (added ++ result.toOption.toList) := by
  unfold Loom.inject at injected
  dsimp only at injected
  split at injected
  · cases injected
    rw [Except.toOption, Option.toList_none, List.append_nil]
    exact kept
  · rename_i attachment _
    have allocated := invariant.addEvent id (List.mem_append_right _ List.mem_cons_self)
      (invariant.allocate loom.body attachment.wrapper index cancellable kept)
    split at injected
    · cases injected
      rw [Except.toOption, Option.toList_none, List.append_nil]
      exact invariant.discard allocated
    · cases injected
      exact invariant.count member allocated

/-- Events that join a routine add none, whether or not all of them are accepted. -/
theorem joinAll (invariant : Invariant among Keeps) {result : Except Error Unit}
    (members : ∀ id ∈ events, id ∈ among) (kept : Keeps loom.events loom.proxies added)
    (present : routine ∈ added) (joined : loom.joinAll routine events = (result, after)) :
    Keeps after.events after.proxies added := by
  induction events generalizing loom with
  | nil =>
      cases joined
      exact kept
  | cons id rest ih =>
      unfold Loom.joinAll at joined
      split at joined
      · rename_i refused
        cases joined
        rw [Loom.eq_of_join_error refused]
        exact kept
      · rename_i next once
        obtain ⟨member, later⟩ := List.forall_mem_cons.mp members
        refine ih later ?_ joined
        rw [Loom.eq_of_join once]
        exact invariant.count member (invariant.addEvent id present kept)

/-- The injection of the events of one site. -/
theorem injectSite (invariant : Invariant among Keeps) {result : Except Error Unit}
    (members : ∀ id ∈ events, id ∈ among) (kept : Keeps loom.events loom.proxies added)
    (done : loom.injectSite index events = (result, routines, entries, after)) :
    Keeps after.events after.proxies (added ++ routines) := by
  have sortedMembers : ∀ id ∈ loom.events.sort events, id ∈ among :=
    fun id member => members id (List.mem_mergeSort.mp member)
  unfold Loom.injectSite at done
  dsimp only at done
  split at done
  · cases done
    rw [List.append_nil]
    exact kept
  · rename_i lead rest sortedEq
    rw [sortedEq] at sortedMembers
    obtain ⟨leadMember, restMembers⟩ := List.forall_mem_cons.mp sortedMembers
    split at done
    · rename_i injected
      cases done
      exact invariant.inject leadMember kept injected
    · rename_i routine middle injected
      have one : Keeps middle.events middle.proxies (added ++ [routine]) :=
        invariant.inject leadMember kept injected
      have present : routine ∈ added ++ [routine] := List.mem_append_right _ List.mem_cons_self
      split at done
      · rename_i joined
        cases done
        exact invariant.joinAll restMembers one present joined
      · rename_i joined
        cases done
        exact invariant.joinAll restMembers one present joined

/-- Injections at several sites, up to the first that fails. -/
theorem injectSites (invariant : Invariant among Keeps) {result : Except Error Unit}
    (members : ∀ entry ∈ sites, ∀ id ∈ entry.2, id ∈ among)
    (kept : Keeps loom.events loom.proxies added)
    (done : loom.injectSites sites = (result, routines, entries, after)) :
    Keeps after.events after.proxies (added ++ routines) := by
  induction sites generalizing loom added routines entries with
  | nil =>
      cases done
      rw [List.append_nil]
      exact kept
  | cons site rest ih =>
      obtain ⟨hereMembers, laterMembers⟩ := List.forall_mem_cons.mp members
      unfold Loom.injectSites at done
      split at done
      · rename_i here
        cases done
        exact invariant.injectSite hereMembers kept here
      · rename_i here
        split at done
        rename_i behind
        cases done
        rw [← List.append_assoc]
        exact ih laterMembers (invariant.injectSite hereMembers kept here) behind

/-- Weaving adds the routines that it lists, whether or not it succeeds. -/
theorem weave (invariant : Invariant among Keeps) {result : Except Error Unit}
    (members : ∀ entry ∈ sites, ∀ id ∈ entry.2, id ∈ among)
    (kept : Keeps loom.events loom.proxies [])
    (done : loom.weave sites = (result, routines, entries, after)) :
    Keeps after.events after.proxies routines := by
  have reversed : ∀ entry ∈ sites.reverse, ∀ id ∈ entry.2, id ∈ among :=
    fun entry member => members entry (List.mem_reverse.mp member)
  unfold Loom.weave at done
  split at done
  · rename_i injected
    cases done
    exact invariant.injectSites reversed kept injected
  · rename_i injected
    cases done
    exact invariant.injectSites reversed kept injected

end Invariant

end Weaver.Loom
