import Weaver.Proofs.Dispatch.Arena
import Weaver.Proofs.Engine.Lending

/-!
# What a transformation adds to the arena

Injections add routines behind those that live, and leave those that were there as they are.  When
the added routines are discarded again the same routines live as before.
-/

namespace Weaver

namespace Arena

variable {before after : Arena} {added : List RoutineId} {id : RoutineId}

/-- The arena has new routines behind those that live, and the others are as they were. -/
structure Grown (before : Arena) (added : List RoutineId) (after : Arena) : Prop where
  sound : after.Sound
  className_eq : after.className = before.className
  namePrefix_eq : after.namePrefix = before.namePrefix
  capacity_eq : after.capacity = before.capacity
  /-- No type is taken away; new ones are opened behind them. -/
  names_prefix : before.types.map ProxyType.name <+: after.types.map ProxyType.name
  size_le : before.routines.size ≤ after.routines.size
  get_old : ∀ id : RoutineId, id.number ≤ before.routines.size → after.get id = before.get id
  live_eq : after.live = before.live ++ added
  new : ∀ id ∈ added, before.routines.size < id.number

theorem Sound.grown_nil (sound : before.Sound) : before.Grown [] before :=
  ⟨sound, rfl, rfl, rfl, List.prefix_rfl, Nat.le_refl _, fun _ _ => rfl,
    (List.append_nil _).symm, List.forall_mem_nil _⟩

/-- The type of a name with the routines that live and carry that name. -/
def byName (arena : Arena) (name : String) : ProxyType :=
  ⟨name, arena.live.filter fun id => (arena.get id).proxyClass = name⟩

namespace Grown

theorem knows (grown : before.Grown added after) (member : id ∈ added) : after.Knows id := by
  apply grown.sound.known
  rw [grown.live_eq]
  exact List.mem_append_right _ member

/-- One more routine is allocated. -/
theorem allocate (grown : before.Grown added after) (body : Body) (wrapper : Wrapper) (site : Nat)
    (cancellable : Bool) :
    before.Grown (added ++ [(after.allocate body wrapper site cancellable).1])
      (after.allocate body wrapper site cancellable).2 := by
  obtain ⟨routine, idEq, adds, _⟩ := after.exists_allocated body wrapper site cancellable
  refine ⟨grown.sound.allocate body wrapper site cancellable, grown.className_eq,
    grown.namePrefix_eq, grown.capacity_eq,
    grown.names_prefix.trans (after.names_allocate body wrapper site cancellable), ?_, ?_, ?_, ?_⟩
  · rw [adds.size_eq]
    exact Nat.le_succ_of_le grown.size_le
  · intro old inside
    rw [adds.get_other old (inside.trans grown.size_le)]
    exact grown.get_old old inside
  · rw [live_allocate, grown.live_eq, List.append_assoc]
  · intro id member
    rcases List.mem_append.mp member with known | last
    · exact grown.new id known
    · rw [List.mem_singleton.mp last, idEq, adds.id_eq]
      exact Nat.lt_succ_of_le grown.size_le

theorem addEvent (grown : before.Grown added after) (member : id ∈ added) (store : EventStore)
    (event : EventId) : before.Grown added (after.put ((after.get id).addEvent store event)) := by
  have known := grown.knows member
  have sameId : ((after.get id).addEvent store event).id = id := grown.sound.numbered id known
  refine ⟨grown.sound.put known sameId rfl rfl, grown.className_eq, grown.namePrefix_eq,
    grown.capacity_eq, grown.names_prefix, ?_, ?_, grown.live_eq, grown.new⟩
  · exact grown.size_le.trans_eq Array.size_setIfInBounds.symm
  · intro old inside
    have positive : 0 < ((after.get id).addEvent store event).id.number := sameId.symm ▸ known.1
    have differs : old ≠ ((after.get id).addEvent store event).id := by
      rintro rfl
      rw [sameId] at inside
      exact absurd (grown.new id member) (Nat.not_lt_of_le inside)
    rw [get_put after positive, if_neg fun here => differs here.1]
    exact grown.get_old old inside

theorem discard (grown : before.Grown added after) (sound : before.Sound) (member : id ∈ added) :
    before.Grown (added.filter (· ≠ id)) (after.discard id) where
  sound := grown.sound.discard id
  className_eq := grown.className_eq
  namePrefix_eq := grown.namePrefix_eq
  capacity_eq := grown.capacity_eq
  names_prefix := by
    rw [names_discard]
    exact grown.names_prefix
  size_le := grown.size_le
  get_old := grown.get_old
  live_eq := by
    rw [live_discard, grown.live_eq, List.filter_append]
    have notBefore : id ∉ before.live := fun lives =>
      absurd (grown.new id member) (Nat.not_lt_of_le (sound.known id lives).2)
    rw [filter_eq_of_notMem notBefore]
  new := fun other otherIn => grown.new other (List.mem_of_mem_filter otherIn)

theorem nodup (grown : before.Grown added after) : added.Nodup := by
  have once := grown.sound.nodup_live
  rw [grown.live_eq] at once
  exact (List.nodup_append.mp once).2.1

theorem discardAll (grown : before.Grown added after) (sound : before.Sound) :
    before.Grown [] (added.foldl Arena.discard after) := by
  induction added generalizing after with
  | nil => exact grown
  | cons id rest ih =>
      have notLater := (List.nodup_cons.mp grown.nodup).1
      have rested : (id :: rest).filter (· ≠ id) = rest := by
        rw [List.filter_cons_of_neg (by simp), filter_eq_of_notMem notLater]
      have discarded := grown.discard sound List.mem_cons_self
      rw [rested] at discarded
      exact ih discarded

theorem eq_byName (grown : before.Grown [] after) (sound : before.Sound) {type : ProxyType}
    (typeIn : type ∈ after.types) : type = before.byName type.name := by
  have liveEq : after.live = before.live := grown.live_eq.trans (List.append_nil _)
  have members : type.members = (before.byName type.name).members := by
    rw [grown.sound.members_eq typeIn, liveEq]
    apply List.filter_congr
    intro id lives
    rw [grown.get_old id (sound.known id lives).2]
  cases type
  exact congrArg (ProxyType.mk _) members

theorem exists_opened (grown : before.Grown [] after) (sound : before.Sound) :
    ∃ opened, after.types = before.types ++ opened ∧ ∀ type ∈ opened, type.members = [] := by
  obtain ⟨names, namesEq⟩ := grown.names_prefix
  obtain ⟨kept, opened, typesEq, keptNames, _⟩ := List.map_eq_append_iff.mp namesEq.symm
  have told : ∀ types : List ProxyType, (∀ type ∈ types, type = before.byName type.name) →
      types = (types.map ProxyType.name).map before.byName := by
    intro types each
    rw [List.map_map]
    exact (List.map_id types).symm.trans (List.map_congr_left each)
  have keptEq : kept = before.types := by
    have toldKept := told kept fun type typeIn =>
      grown.eq_byName sound (typesEq ▸ List.mem_append_left _ typeIn)
    have toldBefore := told before.types fun type typeIn =>
      sound.grown_nil.eq_byName sound typeIn
    rw [toldKept, keptNames, ← toldBefore]
  refine ⟨opened, keptEq ▸ typesEq, ?_⟩
  intro type typeIn
  have told := grown.eq_byName sound (typesEq ▸ List.mem_append_right _ typeIn)
  rw [told]
  apply List.filter_eq_nil_iff.mpr
  intro id lives here
  -- a routine that lives is in a type that was there, and its name is not that of a new type
  obtain ⟨home, homeIn, member⟩ := List.mem_flatMap.mp lives
  have sameName : home.name = type.name :=
    (sound.home home homeIn id member).symm.trans (of_decide_eq_true here)
  have distinct := grown.sound.nodup_names
  rw [typesEq, List.map_append, List.nodup_append] at distinct
  exact distinct.2.2 _ (List.mem_map_of_mem (keptEq ▸ homeIn)) _ (List.mem_map_of_mem typeIn)
    sameName

end Grown

end Arena

/-- Injections let the arena grow by the routines that they add. -/
theorem Loom.invariant_grown {arena : Arena} (sound : arena.Sound) (among : List EventId) :
    Loom.Invariant among fun _ after added => arena.Grown added after where
  allocate := fun body wrapper site cancellable grown =>
    grown.allocate body wrapper site cancellable
  addEvent := fun id member grown => grown.addEvent member _ id
  discard := by
    intro events after added routine grown
    have notBefore : routine ∉ added := fun member =>
      (List.nodup_append.mp grown.nodup).2.2 routine member routine List.mem_cons_self rfl
    have rested : (added ++ [routine]).filter (· ≠ routine) = added := by
      rw [List.filter_append, List.filter_cons_of_neg (by simp), List.filter_nil, List.append_nil,
        Arena.filter_eq_of_notMem notBefore]
    have discarded := grown.discard sound (List.mem_append_right _ List.mem_cons_self)
    rw [rested] at discarded
    exact discarded
  count := fun _ grown => grown

end Weaver
