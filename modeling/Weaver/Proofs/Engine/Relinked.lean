import Weaver.Proofs.Engine.Reachable
import Weaver.Proofs.Splice.Relinked

/-!
# Weaving relinked bodies

Two looms that hold the same events, and bodies that are relinked, may have any routines in their
arenas.  What succeeds on one of them succeeds on the other: the routines that are allocated correspond
one by one, and they are all in which the woven bodies differ.
-/

namespace Weaver

variable {link : MethodRef → MethodRef → Prop}

namespace Routine

/-- Two routines differ at most in their numbers, their names and their proxy types. -/
def Corresponds (routine peer : Routine) : Prop :=
  peer = { routine with id := peer.id, name := peer.name, proxyClass := peer.proxyClass }

variable {routine peer : Routine}

theorem Corresponds.signature_eq (corresponds : routine.Corresponds peer) :
    peer.signature = routine.signature := by
  rw [corresponds]

theorem Corresponds.target_eq (corresponds : routine.Corresponds peer) :
    peer.target = routine.target := by
  rw [corresponds]

theorem Corresponds.events_eq (corresponds : routine.Corresponds peer) :
    peer.events = routine.events := by
  rw [corresponds]

theorem Corresponds.addEvent (corresponds : routine.Corresponds peer) (store : EventStore)
    (id : EventId) : (routine.addEvent store id).Corresponds (peer.addEvent store id) := by
  unfold Corresponds Routine.addEvent
  rw [corresponds]

theorem Corresponds.withEvents (corresponds : routine.Corresponds peer)
    (events : List ((Int × Nat) × EventId)) :
    Corresponds { routine with events } { peer with events } := by
  unfold Corresponds
  rw [corresponds]

/-- Methods are linked, or they are the ones under which the two routines are called. -/
def Adjoin (link : MethodRef → MethodRef → Prop) (routine peer : Routine)
    (first second : MethodRef) : Prop :=
  link first second ∨ first = routine.ref ∧ second = peer.ref

/-- Routines for the same site of the same method correspond if they have the same events. -/
theorem Serves.corresponds {body : Body} {wrapper : Wrapper} {site : Nat} {cancellable : Bool}
    (serves : routine.Serves body wrapper site cancellable)
    (peerServes : peer.Serves body wrapper site cancellable)
    (sameEvents : peer.events = routine.events) : routine.Corresponds peer := by
  cases routine
  cases peer
  obtain ⟨rfl, rfl, rfl, rfl⟩ := serves
  obtain ⟨rfl, rfl, rfl, rfl⟩ := peerServes
  cases sameEvents
  rfl

end Routine

namespace Arena

variable {before after later : Arena} {routine : Routine}

/-- The routines of an arena are kept. -/
structure Retains (before after : Arena) : Prop where
  size_le : before.routines.size ≤ after.routines.size
  get_old : ∀ id : RoutineId, id.number ≤ before.routines.size → after.get id = before.get id

theorem Retains.refl (arena : Arena) : Retains arena arena := ⟨Nat.le_refl _, fun _ _ => rfl⟩

theorem Retains.trans (first : Retains before after) (second : Retains after later) :
    Retains before later where
  size_le := first.size_le.trans second.size_le
  get_old := fun id old =>
    (second.get_old id (old.trans first.size_le)).trans (first.get_old id old)

theorem Adds.retains (adds : Adds before routine after) : Retains before after where
  size_le := by rw [adds.size_eq]; exact Nat.le_succ _
  get_old := adds.get_other

theorem Adds.get_later (adds : Adds before routine after) (retains : Retains after later) :
    later.get routine.id = routine := by
  rw [retains.get_old, adds.get_self]
  rw [adds.id_eq, adds.size_eq]

/-- The references of the routines that stand at the same places of two lists. -/
def Links (arena other : Arena) (routines peers : List RoutineId) (first second : MethodRef) :
    Prop :=
  ∃ ids ∈ routines.zip peers, first = (arena.get ids.1).ref ∧ second = (other.get ids.2).ref

end Arena

namespace Loom

open Routine

/-- Two looms hold the same events and relinked bodies. -/
structure Relinked (link : MethodRef → MethodRef → Prop) (loom other : Loom) : Prop where
  events_eq : other.events = loom.events
  body : loom.body.Relinked link other.body

/-- Routines that were added to two looms correspond, and they are all in which the bodies differ
beyond the methods that were linked before. -/
structure Adjoins (link : MethodRef → MethodRef → Prop) (routines peers : List RoutineId)
    (loom other : Loom) : Prop where
  corresponds : List.Forall₂
    (fun id peer => (loom.proxies.get id).Corresponds (other.proxies.get peer)) routines peers
  relinked : Relinked
    (fun first second => link first second ∨
      loom.proxies.Links other.proxies routines peers first second) loom other

variable {loom other after : Loom} {id : EventId} {ids held : List EventId} {index : Nat}
  {cancellable : Bool} {routine : RoutineId} {routines : List RoutineId}
  {entries : List Diagnostic} {sites : SiteMap}

theorem Relinked.exists_attach (relinked : Relinked link loom other)
    (attached : loom.attach id = (.ok (), after)) :
    ∃ peerAfter, other.attach id = (.ok (), peerAfter) ∧ Relinked link after peerAfter := by
  have boundEq : Attachment.ofBody other.body = .ofBody loom.body := by
    rw [relinked.body.eq_with]
    rfl
  cases present : (loom.events.get id).attachment with
  | some current =>
      rw [attach_of_attached present] at attached
      cases attached
  | none =>
      rw [attach_of_idle present] at attached
      cases attached
      refine ⟨_, attach_of_idle (relinked.events_eq ▸ present), ?_, relinked.body⟩
      rw [relinked.events_eq, boundEq]

theorem Relinked.exists_attachAll (relinked : Relinked link loom other)
    (attached : loom.attachAll held ids = (.ok (), after)) :
    ∃ peerAfter, other.attachAll held ids = (.ok (), peerAfter) ∧
      Relinked link after peerAfter := by
  induction ids generalizing loom other held with
  | nil =>
      cases attached
      exact ⟨other, rfl, relinked⟩
  | cons id rest ih =>
      unfold attachAll at attached ⊢
      split at attached
      · cases attached
      · rename_i next once
        obtain ⟨peerNext, peerOnce, relinkedNext⟩ := relinked.exists_attach once
        rw [peerOnce]
        exact ih relinkedNext attached

/-- An injection that succeeds on one of the looms succeeds on the other, with a routine that
corresponds. -/
theorem Relinked.exists_inject (relinked : Relinked link loom other)
    (injected : loom.inject id index cancellable = (.ok routine, after)) :
    ∃ (added peer : Routine) (peerAfter : Loom), routine = added.id ∧
      other.inject id index cancellable = (.ok peer.id, peerAfter) ∧
      loom.proxies.Adds added after.proxies ∧ other.proxies.Adds peer peerAfter.proxies ∧
      added.Corresponds peer ∧
      Relinked (Adjoin link added peer) after peerAfter := by
  obtain ⟨attachment, attached⟩ := attachedTo_of_inject injected
  have peerAttached : (other.events.get id).attachedTo other.body.text = .ok attachment := by
    rw [relinked.events_eq, relinked.body.text_eq, attached]
  obtain ⟨added, proxies, adds, serves, alone, outcome⟩ :=
    @inject_eq loom id index cancellable attachment attached
  obtain ⟨peer, peerProxies, peerAdds, peerServes, peerAlone, peerOutcome⟩ :=
    @inject_eq other id index cancellable attachment peerAttached
  have corresponds : added.Corresponds peer := by
    refine serves.corresponds ⟨?_, peerServes.site_eq, ?_, peerServes.cancellable_eq⟩ ?_
    · rw [peerServes.target_eq, relinked.body.text_eq]
    · rw [peerServes.signature_eq, relinked.body.eq_with]
      rfl
    · rw [peerAlone, alone, relinked.events_eq]
  rw [outcome] at injected
  split at injected
  · cases injected
  · rename_i report woven applied
    cases injected
    have bodies : loom.body.Relinked (Adjoin link added peer) other.body :=
      relinked.body.mono fun _ _ => .inl
    obtain ⟨peerWoven, peerApplied, wovenRelinked⟩ := Splice.exists_apply_relinked bodies
      (.inr ⟨rfl, rfl⟩) corresponds.signature_eq applied
    rw [← relinked.events_eq] at peerApplied
    rw [peerOutcome, peerApplied]
    refine ⟨added, peer, _, rfl, rfl, adds, peerAdds, corresponds, ?_, wovenRelinked⟩
    dsimp only [count]
    rw [relinked.events_eq]

/-- Events that join a routine of one of the looms can join one that corresponds. -/
theorem Relinked.exists_joinAll {arena peers : Arena} {present peer : Routine}
    (relinked : Relinked link loom other) (adds : arena.Adds present loom.proxies)
    (peerAdds : peers.Adds peer other.proxies) (corresponds : present.Corresponds peer)
    (joined : loom.joinAll present.id ids = (.ok (), after)) :
    ∃ (events : List ((Int × Nat) × EventId)) (peerAfter : Loom),
      other.joinAll peer.id ids = (.ok (), peerAfter) ∧
      arena.Adds { present with events } after.proxies ∧
      peers.Adds { peer with events } peerAfter.proxies ∧ Relinked link after peerAfter := by
  induction ids generalizing loom other present peer with
  | nil =>
      cases joined
      refine ⟨present.events, other, rfl, adds, ?_, relinked⟩
      rw [← corresponds.events_eq]
      exact peerAdds
  | cons id rest ih =>
      unfold joinAll at joined ⊢
      split at joined
      · cases joined
      · rename_i next once
        unfold join at once ⊢
        rw [adds.get_self] at once
        rw [peerAdds.get_self]
        dsimp only at once ⊢
        split at once
        · cases once
        · rename_i attachment attached
          cases once
          have peerAttached : (other.events.get id).attachedTo peer.target = .ok attachment := by
            rw [relinked.events_eq, corresponds.target_eq, attached]
          rw [peerAttached, relinked.events_eq]
          have joinedOnce : Relinked link
              ({ loom with
                proxies := loom.proxies.put (present.addEvent loom.events id) }.count id)
              ({ other with
                events := loom.events
                proxies := other.proxies.put (peer.addEvent loom.events id) }.count id) :=
            ⟨rfl, relinked.body⟩
          have added : arena.Adds (present.addEvent loom.events id)
              (loom.proxies.put (present.addEvent loom.events id)) := adds.put rfl
          have peerAdded : peers.Adds (peer.addEvent loom.events id)
              (other.proxies.put (peer.addEvent loom.events id)) := peerAdds.put rfl
          have rested := ih joinedOnce added peerAdded (corresponds.addEvent _ _) joined
          exact rested

/-- At a site one routine is added to each of the looms. -/
theorem Relinked.exists_injectSite {events : List EventId} (relinked : Relinked link loom other)
    (filled : loom.events.sort events ≠ [])
    (done : loom.injectSite index events = (.ok (), routines, entries, after)) :
    ∃ (added peer : Routine) (peerEntries : List Diagnostic) (peerAfter : Loom),
      routines = [added.id] ∧
      other.injectSite index events = (.ok (), [peer.id], peerEntries, peerAfter) ∧
      loom.proxies.Adds added after.proxies ∧ other.proxies.Adds peer peerAfter.proxies ∧
      added.Corresponds peer ∧
      Relinked (Adjoin link added peer) after peerAfter := by
  obtain ⟨lead, rest, routine, middle, sortedEq, rfl, injected, joined⟩ :=
    inject_of_injectSite filled done
  obtain ⟨added, peer, peerMiddle, rfl, peerInjected, adds, peerAdds, corresponds, between⟩ :=
    relinked.exists_inject injected
  obtain ⟨joining, peerAfter, peerJoined, addsAll, peerAddsAll, relinkedAfter⟩ :=
    between.exists_joinAll adds peerAdds corresponds joined
  refine ⟨{ added with events := joining }, { peer with events := joining },
    peerAfter.siteReports index (lead :: rest) peer.id, peerAfter, rfl, ?_, addsAll, peerAddsAll,
    corresponds.withEvents joining, relinkedAfter⟩
  unfold injectSite
  rw [relinked.events_eq]
  dsimp only
  rw [sortedEq] at peerInjected ⊢
  dsimp only
  rw [peerInjected]
  dsimp only
  rw [peerJoined]

/-- Injections at several sites that succeed on one of the looms succeed on the other. -/
theorem Relinked.exists_injectSites (relinked : Relinked link loom other)
    (filled : ∀ entry ∈ sites, entry.2 ≠ [])
    (done : loom.injectSites sites = (.ok (), routines, entries, after)) :
    ∃ peers peerEntries peerAfter,
      other.injectSites sites = (.ok (), peers, peerEntries, peerAfter) ∧
      loom.proxies.Retains after.proxies ∧ other.proxies.Retains peerAfter.proxies ∧
      Adjoins link routines peers after peerAfter := by
  induction sites generalizing link loom other routines entries with
  | nil =>
      cases done
      refine ⟨[], [], other, rfl, .refl _, .refl _, .nil, relinked.events_eq, ?_⟩
      exact relinked.body.mono fun _ _ => .inl
  | cons site rest ih =>
      obtain ⟨index, events⟩ := site
      obtain ⟨here, later⟩ := List.forall_mem_cons.mp filled
      unfold injectSites at done ⊢
      split at done
      · cases done
      · rename_i first noted middle once
        split at done
        rename_i behind laterEntries last rested
        cases done
        have sorted : loom.events.sort events ≠ [] :=
          fun nothing => here (List.nil_perm.mp (nothing ▸ List.mergeSort_perm events _))
        obtain ⟨added, peer, peerNoted, peerMiddle, rfl, peerOnce, adds, peerAdds, corresponds,
          between⟩ := relinked.exists_injectSite sorted once
        obtain ⟨peers, peerEntries, peerAfter, peerRested, retains, peerRetains, adjoins⟩ :=
          ih between later rested
        rw [peerOnce]
        dsimp only
        rw [peerRested]
        refine ⟨peer.id :: peers, _, peerAfter, rfl, adds.retains.trans retains,
          peerAdds.retains.trans peerRetains, .cons ?_ adjoins.corresponds, adjoins.relinked.events_eq,
          adjoins.relinked.body.mono ?_⟩
        · rw [adds.get_later retains, peerAdds.get_later peerRetains]
          exact corresponds
        · rintro one two ((linked | ⟨rfl, rfl⟩) | ⟨ids, member, oneEq, twoEq⟩)
          · exact .inl linked
          · refine .inr ⟨(added.id, peer.id), List.mem_cons_self, ?_, ?_⟩
            · rw [adds.get_later retains]
            · rw [peerAdds.get_later peerRetains]
          · exact .inr ⟨ids, List.mem_cons_of_mem _ member, oneEq, twoEq⟩

theorem Relinked.checkStack_eq (relinked : Relinked link loom other)
    (checked : loom.checkStack = .ok ()) : other.checkStack = .ok () := by
  unfold checkStack at checked ⊢
  split at checked
  · cases checked
  · rename_i required found
    rw [relinked.body.requiredMaxStack_eq found, relinked.body.maxStack_eq]
    dsimp only
    split at checked
    · cases checked
    · rename_i enough
      exact if_neg enough

/-- What can be woven on one of the looms can be woven on the other. -/
theorem Relinked.exists_weave (relinked : Relinked link loom other)
    (filled : ∀ entry ∈ sites, entry.2 ≠ [])
    (woven : loom.weave sites = (.ok (), routines, entries, after)) :
    ∃ peers peerEntries peerAfter,
      other.weave sites = (.ok (), peers, peerEntries, peerAfter) ∧
      Adjoins link routines peers after peerAfter := by
  unfold weave at woven ⊢
  split at woven
  · cases woven
  · rename_i injected
    obtain ⟨checked, same⟩ := Prod.mk.inj woven
    cases same
    obtain ⟨peers, peerEntries, peerAfter, peerInjected, _, _, adjoins⟩ :=
      relinked.exists_injectSites (fun entry member => filled entry (List.mem_reverse.mp member))
        injected
    rw [peerInjected]
    dsimp only
    rw [adjoins.relinked.checkStack_eq checked]
    exact ⟨peers, peerEntries, peerAfter, rfl, adjoins⟩

end Loom

end Weaver
