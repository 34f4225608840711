import Mathlib.Data.List.Nodup
import Weaver.Proofs.Dispatch.Names
import Weaver.Proofs.Engine.Injection

/-!
# The routines that live

The arena numbers its routines in the order of allocation and gives no number twice while fewer than
`2 ^ 32` routines have been allocated, which is the bound of all that follows.  A routine lives in the
type whose name it carries until it is discarded, and the routines that live are listed in the order of
their numbers, whatever was discarded in between.
-/

namespace Weaver.Arena

variable {arena before after : Arena} {routine : Routine} {id : RoutineId}
  {added : List RoutineId}

/-- The routine was allocated at some time. -/
def Knows (arena : Arena) (id : RoutineId) : Prop :=
  0 < id.number ∧ id.number ≤ arena.routines.size

/-- The types with room are those that there are, or a new type is opened behind them. -/
theorem opened_cases (arena : Arena) :
    arena.opened = (arena.types, ⟨arena.typeName arena.types.length, []⟩) ∨
      arena.types = arena.opened.1 ++ [arena.opened.2] := by
  unfold opened
  dsimp only
  split
  · exact .inl rfl
  · rename_i last lastEq
    split
    · exact .inl rfl
    · exact .inr (List.dropLast_append_getLast? last lastEq).symm

/-- A routine that is allocated lives behind all others. -/
theorem live_allocate (arena : Arena) (body : Body) (wrapper : Wrapper) (site : Nat)
    (cancellable : Bool) :
    (arena.allocate body wrapper site cancellable).2.live =
      arena.live ++ [(arena.allocate body wrapper site cancellable).1] := by
  unfold live allocate
  dsimp only
  rcases arena.opened_cases with opened | kept
  · rw [opened]
    simp
  · conv_rhs => rw [kept]
    simp

/-- The types that there are stay in place when a routine is allocated. -/
theorem names_allocate (arena : Arena) (body : Body) (wrapper : Wrapper) (site : Nat)
    (cancellable : Bool) :
    arena.types.map ProxyType.name <+:
      (arena.allocate body wrapper site cancellable).2.types.map ProxyType.name := by
  unfold allocate
  dsimp only
  rcases arena.opened_cases with opened | kept
  · rw [opened, List.map_append]
    exact List.prefix_append _ _
  · conv_lhs => rw [kept]
    simp

theorem filter_eq_of_notMem {ids : List RoutineId} (away : id ∉ ids) :
    ids.filter (· ≠ id) = ids := by
  rw [List.filter_eq_self]
  intro other member
  apply decide_eq_true
  rintro rfl
  exact away member

theorem live_discard (arena : Arena) (id : RoutineId) :
    (arena.discard id).live = arena.live.filter (· ≠ id) := by
  unfold live discard
  rw [List.flatMap_map, List.filter_flatMap]

theorem names_discard (arena : Arena) (id : RoutineId) :
    (arena.discard id).types.map ProxyType.name = arena.types.map ProxyType.name := by
  unfold discard
  rw [List.map_map]
  rfl

/-- What an arena holds from its start on. -/
structure Sound (arena : Arena) : Prop where
  numbered : ∀ id, arena.Knows id → (arena.get id).id = id
  named : ∀ id, arena.Knows id → (arena.get id).name = arena.namePrefix ++ padded 5 id.number
  types_eq : arena.types.map ProxyType.name =
    (List.range arena.types.length).map arena.typeName
  known : ∀ id ∈ arena.live, arena.Knows id
  home : ∀ type ∈ arena.types, ∀ id ∈ type.members, (arena.get id).proxyClass = type.name
  ascending : arena.live.Pairwise fun first second => first.number < second.number

theorem Sound.nodup_live (sound : arena.Sound) : arena.live.Nodup := by
  apply sound.ascending.imp
  rintro first _ below rfl
  exact Nat.lt_irrefl _ below

theorem Sound.nodup_names (sound : arena.Sound) : (arena.types.map ProxyType.name).Nodup := by
  rw [sound.types_eq]
  exact List.nodup_range.map fun _ _ => arena.typeName_inj

/-- The routines of a type are those that live and carry its name. -/
theorem Sound.members_eq (sound : arena.Sound) {type : ProxyType} (typeIn : type ∈ arena.types) :
    type.members = arena.live.filter fun id => (arena.get id).proxyClass = type.name := by
  have own : ∀ other ∈ arena.types,
      other.members.filter (fun id => (arena.get id).proxyClass = type.name) =
        if other.name = type.name then other.members else [] := by
    intro other otherIn
    split
    · rename_i same
      rw [List.filter_eq_self]
      intro id member
      exact decide_eq_true ((sound.home other otherIn id member).trans same)
    · rename_i differs
      rw [List.filter_eq_nil_iff]
      intro id member here
      exact differs ((sound.home other otherIn id member).symm.trans (of_decide_eq_true here))
  rw [live, List.filter_flatMap, List.flatMap_congr own]
  obtain ⟨front, back, typesEq⟩ := List.append_of_mem typeIn
  have distinct := sound.nodup_names
  rw [typesEq, List.map_append, List.map_cons, List.nodup_middle, List.nodup_cons,
    ← List.map_append] at distinct
  have others : ∀ other ∈ front ++ back, other.name ≠ type.name :=
    fun other otherIn same => distinct.1 (same ▸ List.mem_map_of_mem otherIn)
  have nothing : ∀ types ⊆ front ++ back,
      (types.flatMap fun other => if other.name = type.name then other.members else []) = [] := by
    intro types inside
    rw [List.flatMap_eq_nil_iff]
    intro other otherIn
    exact if_neg (others other (inside otherIn))
  rw [typesEq, List.flatMap_append, List.flatMap_cons, if_pos rfl,
    nothing front (List.subset_append_left _ _), nothing back (List.subset_append_right _ _),
    List.nil_append, List.append_nil]

theorem sound_ofSettings (settings : Settings) : (ofSettings settings).Sound where
  numbered := by
    rintro id ⟨positive, inside⟩
    exact absurd (Nat.lt_of_lt_of_le positive inside) (Nat.lt_irrefl 0)
  named := by
    rintro id ⟨positive, inside⟩
    exact absurd (Nat.lt_of_lt_of_le positive inside) (Nat.lt_irrefl 0)
  types_eq := rfl
  known := List.forall_mem_nil _
  home := List.forall_mem_nil _
  ascending := .nil

theorem Sound.discard (sound : arena.Sound) (id : RoutineId) : (arena.discard id).Sound where
  numbered := sound.numbered
  named := sound.named
  types_eq := by
    rw [names_discard, Arena.discard, List.length_map]
    exact sound.types_eq
  known := by
    intro other member
    rw [live_discard] at member
    exact sound.known other (List.mem_of_mem_filter member)
  home := by
    intro type typeIn other member
    obtain ⟨present, presentIn, rfl⟩ := List.mem_map.mp typeIn
    exact sound.home present presentIn other (List.mem_of_mem_filter member)
  ascending := by
    rw [live_discard]
    exact sound.ascending.filter _

/-- A known routine may be put in another state that has its number, name and type. -/
theorem Sound.put (sound : arena.Sound) (known : arena.Knows id) (sameId : routine.id = id)
    (sameName : routine.name = (arena.get id).name)
    (sameClass : routine.proxyClass = (arena.get id).proxyClass) : (arena.put routine).Sound := by
  have sizeEq : (arena.put routine).routines.size = arena.routines.size := Array.size_setIfInBounds
  have positive : 0 < routine.id.number := sameId ▸ known.1
  have knowsIff : ∀ other, (arena.put routine).Knows other ↔ arena.Knows other := by
    intro other
    rw [Knows, Knows, sizeEq]
  -- only the fields that stay are asked for, so both cases of the look-up give the same
  have stays : ∀ other, ((arena.put routine).get other).id = (arena.get other).id ∧
      ((arena.put routine).get other).name = (arena.get other).name ∧
      ((arena.put routine).get other).proxyClass = (arena.get other).proxyClass := by
    intro other
    rw [get_put arena positive]
    split
    · rename_i here
      rw [here.1, sameId]
      exact ⟨(sound.numbered id known).symm, sameName, sameClass⟩
    · exact ⟨rfl, rfl, rfl⟩
  refine ⟨?_, ?_, sound.types_eq, ?_, ?_, sound.ascending⟩
  · intro other knows
    rw [(stays other).1]
    exact sound.numbered other ((knowsIff other).mp knows)
  · intro other knows
    rw [(stays other).2.1]
    exact sound.named other ((knowsIff other).mp knows)
  · intro other member
    exact (knowsIff other).mpr (sound.known other member)
  · intro type typeIn other member
    rw [(stays other).2.2]
    exact sound.home type typeIn other member

/-- A routine that is allocated is named after its number and lives in the last type. -/
theorem exists_allocated (arena : Arena) (body : Body) (wrapper : Wrapper) (site : Nat)
    (cancellable : Bool) :
    ∃ routine : Routine, (arena.allocate body wrapper site cancellable).1 = routine.id ∧
      Adds arena routine (arena.allocate body wrapper site cancellable).2 ∧
      routine.name = arena.namePrefix ++ padded 5 routine.id.number ∧
      routine.proxyClass = arena.opened.2.name := by
  refine ⟨_, ?_, adds_of_push ?_ rfl, ?_, ?_⟩
  all_goals rfl

/-- The types behind an allocation: the routine is in the last one, whose other members and name
are those of a type that was there, or there is a new type for it alone. -/
theorem types_allocate (arena : Arena) (body : Body) (wrapper : Wrapper) (site : Nat)
    (cancellable : Bool) :
    (arena.allocate body wrapper site cancellable).2.types =
      arena.opened.1 ++ [{ arena.opened.2 with
        members := arena.opened.2.members ++
          [(arena.allocate body wrapper site cancellable).1] }] := rfl

theorem Sound.opened (sound : arena.Sound) :
    (arena.opened.1 ++ [arena.opened.2]).map ProxyType.name =
      (List.range (arena.opened.1.length + 1)).map arena.typeName ∧
    (∀ type ∈ arena.opened.1 ++ [arena.opened.2], ∀ id ∈ type.members,
      id ∈ arena.live ∧ (arena.get id).proxyClass = type.name) := by
  have lives : ∀ type ∈ arena.types, ∀ id ∈ type.members,
      id ∈ arena.live ∧ (arena.get id).proxyClass = type.name := fun type typeIn id member =>
    ⟨List.mem_flatMap.mpr ⟨type, typeIn, member⟩, sound.home type typeIn id member⟩
  rcases arena.opened_cases with opened | kept
  · rw [opened]
    constructor
    · rw [List.map_append, sound.types_eq, List.range_succ, List.map_append]
      rfl
    · intro type typeIn id member
      rcases List.mem_append.mp typeIn with old | new
      · exact lives type old id member
      · rw [List.mem_singleton.mp new] at member
        cases member
  · rw [← kept]
    refine ⟨?_, lives⟩
    have lengthEq : arena.types.length = arena.opened.1.length + 1 := by
      conv_lhs => rw [kept]
      exact List.length_append
    rw [sound.types_eq, lengthEq]

theorem Adds.knows_iff (adds : before.Adds routine after) :
    after.Knows id ↔ before.Knows id ∨ id = routine.id := by
  rw [Knows, Knows, adds.size_eq, adds.id_eq]
  constructor
  · rintro ⟨positive, inside⟩
    rcases Nat.lt_or_eq_of_le inside with old | new
    · exact .inl ⟨positive, Nat.le_of_lt_succ old⟩
    · exact .inr (congrArg RoutineId.mk new)
  · rintro (⟨positive, inside⟩ | rfl)
    · exact ⟨positive, Nat.le_succ_of_le inside⟩
    · exact ⟨Nat.succ_pos _, Nat.le_refl _⟩

theorem Sound.allocate (sound : arena.Sound) (body : Body) (wrapper : Wrapper) (site : Nat)
    (cancellable : Bool) : (arena.allocate body wrapper site cancellable).2.Sound := by
  obtain ⟨routine, idEq, adds, nameEq, classEq⟩ :=
    arena.exists_allocated body wrapper site cancellable
  have live := arena.live_allocate body wrapper site cancellable
  have typesEq := arena.types_allocate body wrapper site cancellable
  rw [idEq] at live typesEq
  obtain ⟨namesEq, homes⟩ := sound.opened
  set next := (arena.allocate body wrapper site cancellable).2
  have prefixEq : next.namePrefix = arena.namePrefix := rfl
  have nameOf : next.typeName = arena.typeName := rfl
  have old : ∀ id ∈ arena.live, next.get id = arena.get id :=
    fun id member => adds.get_other id (sound.known id member).2
  constructor
  · intro id known
    rcases adds.knows_iff.mp known with before | rfl
    · rw [adds.get_other id before.2]
      exact sound.numbered id before
    · rw [adds.get_self]
  · intro id known
    rcases adds.knows_iff.mp known with before | rfl
    · rw [adds.get_other id before.2]
      exact sound.named id before
    · rw [adds.get_self]
      exact nameEq
  · rw [typesEq, nameOf, List.length_append, List.map_append]
    rw [List.map_append] at namesEq
    exact namesEq
  · intro id member
    rw [live] at member
    refine adds.knows_iff.mpr ((List.mem_append.mp member).imp (sound.known id) ?_)
    exact List.mem_singleton.mp
  · intro type typeIn id member
    rw [typesEq] at typeIn
    rcases List.mem_append.mp typeIn with front | last
    · obtain ⟨lives, here⟩ := homes type (List.mem_append_left _ front) id member
      rw [old id lives]
      exact here
    · rw [List.mem_singleton.mp last] at member ⊢
      rcases List.mem_append.mp member with present | new
      · obtain ⟨lives, here⟩ := homes _ (List.mem_append_right _ List.mem_cons_self) id present
        rw [old id lives]
        exact here
      · rw [List.mem_singleton.mp new, adds.get_self]
        exact classEq
  · rw [live]
    refine List.pairwise_append.mpr ⟨sound.ascending, List.pairwise_singleton _ _, ?_⟩
    intro id member last lastIn
    rw [List.mem_singleton.mp lastIn, adds.id_eq]
    exact Nat.lt_succ_of_le (sound.known id member).2

end Weaver.Arena
