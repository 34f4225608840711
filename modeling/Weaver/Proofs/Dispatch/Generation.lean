import Weaver.Machine.Program
import Weaver.Proofs.Dispatch.Arena
import Weaver.Proofs.Dispatch.Emitted

/-!
# Generated types

When the body of every routine that lives can be made, the arena generates the types that have
routines, each with the bodies of its routines.  No two of these bodies have the same key, so a program
to which they are added finds each of them under its own.
-/

namespace Weaver

theorem Routine.ref_of_generate {routine : Routine} {store : EventStore} {body : Body}
    (generated : (routine.generate store).1 = .ok body) : body.ref = routine.ref := by
  unfold generate at generated
  dsimp only at generated
  split at generated
  · cases generated
  · cases generated
    rfl

namespace Arena

variable {arena : Arena} {store : EventStore} {ids : List RoutineId} {types : List ProxyType}

/-- The body of a routine, if it can be made. -/
def bodyOf (arena : Arena) (store : EventStore) (id : RoutineId) : Body :=
  ((arena.get id).generate store).1.toOption.getD default

/-- The bodies of the routines can be made. -/
def Makes (arena : Arena) (store : EventStore) (ids : List RoutineId) : Prop :=
  ∀ id ∈ ids, ((arena.get id).generate store).1 = .ok (arena.bodyOf store id)

theorem makes_of_narrow
    (narrow : ∀ id ∈ ids, (arena.get id).signature.totalSlots ≤ slotLimit) :
    arena.Makes store ids := by
  intro id member
  obtain ⟨body, generated, _⟩ := Routine.generate_eq_ok (narrow id member) store
  rw [bodyOf, generated]
  rfl

theorem Makes.ref_eq (makes : arena.Makes store ids) {id : RoutineId} (member : id ∈ ids) :
    (arena.bodyOf store id).ref = (arena.get id).ref :=
  Routine.ref_of_generate (makes id member)

theorem generateAll_eq (makes : arena.Makes store ids) :
    (arena.generateAll store ids).1 = .ok (ids.map (arena.bodyOf store)) := by
  induction ids with
  | nil => rfl
  | cons id rest ih =>
      obtain ⟨here, later⟩ := List.forall_mem_cons.mp makes
      have bodies := ih later
      unfold generateAll
      rcases generated : (arena.get id).generate store with ⟨result, warnings⟩
      rcases others : arena.generateAll store rest with ⟨results, more⟩
      rw [generated] at here
      rw [others] at bodies
      dsimp only at here bodies
      rw [here, bodies]
      rfl

theorem generateTypes_eq (makes : arena.Makes store (types.flatMap ProxyType.members)) :
    (arena.generateTypes store types).1 =
      .ok (types.map fun type => ⟨type.name, type.members.map (arena.bodyOf store)⟩) := by
  induction types with
  | nil => rfl
  | cons type rest ih =>
      rw [List.flatMap_cons] at makes
      have here := generateAll_eq fun id member => makes id (List.mem_append_left _ member)
      have proxies := ih fun id member => makes id (List.mem_append_right _ member)
      unfold generateTypes
      rcases generated : arena.generateAll store type.members with ⟨result, warnings⟩
      rcases others : arena.generateTypes store rest with ⟨results, more⟩
      rw [generated] at here
      rw [others] at proxies
      dsimp only at here proxies
      rw [here, proxies]
      rfl

/-- The types that are generated. -/
def proxiesOf (arena : Arena) (store : EventStore) : List GeneratedProxy :=
  (arena.types.filter (!·.members.isEmpty)).map fun type =>
    ⟨type.name, type.members.map (arena.bodyOf store)⟩

theorem flatMap_filled (types : List ProxyType) :
    (types.filter (!·.members.isEmpty)).flatMap ProxyType.members =
      types.flatMap ProxyType.members := by
  induction types with
  | nil => rfl
  | cons type rest ih =>
      cases filled : type.members with
      | nil => rw [List.filter_cons_of_neg (by simp [filled]), ih, List.flatMap_cons, filled]; rfl
      | cons id ids => rw [List.filter_cons_of_pos (by simp [filled]), List.flatMap_cons, ih,
          List.flatMap_cons]

theorem generate_eq (makes : arena.Makes store arena.live) :
    (arena.generate store).1 = .ok (arena.proxiesOf store) := by
  rw [generate, generateTypes_eq, proxiesOf]
  rw [flatMap_filled]
  exact makes

/-- The methods that are generated are the bodies of the routines that live. -/
theorem methods_proxiesOf (arena : Arena) (store : EventStore) :
    (arena.proxiesOf store).flatMap GeneratedProxy.methods =
      arena.live.map (arena.bodyOf store) := by
  rw [proxiesOf, List.flatMap_map, live, ← flatMap_filled, List.map_flatMap]

theorem Sound.exists_proxy (sound : arena.Sound) {id : RoutineId} (lives : id ∈ arena.live) :
    ∃ proxy ∈ arena.proxiesOf store, proxy.name = (arena.get id).proxyClass ∧
      arena.bodyOf store id ∈ proxy.methods := by
  obtain ⟨type, typeIn, member⟩ := List.mem_flatMap.mp lives
  refine ⟨⟨type.name, type.members.map (arena.bodyOf store)⟩, ?_, ?_, List.mem_map_of_mem member⟩
  · apply List.mem_map_of_mem
    refine List.mem_filter.mpr ⟨typeIn, ?_⟩
    cases filled : type.members with
    | nil =>
        rw [filled] at member
        cases member
    | cons _ _ => rfl
  · exact (sound.home type typeIn id member).symm

/-- A method that is generated is the body of a routine that lives and carries the name of its
type. -/
theorem Sound.exists_routine (sound : arena.Sound) {proxy : GeneratedProxy}
    (proxyIn : proxy ∈ arena.proxiesOf store) {method : Body} (member : method ∈ proxy.methods) :
    ∃ id ∈ arena.live, method = arena.bodyOf store id ∧
      proxy.name = (arena.get id).proxyClass := by
  obtain ⟨type, kept, rfl⟩ := List.mem_map.mp proxyIn
  obtain ⟨id, held, rfl⟩ := List.mem_map.mp member
  have typeIn := List.mem_of_mem_filter kept
  exact ⟨id, List.mem_flatMap.mpr ⟨type, typeIn, held⟩, rfl, (sound.home type typeIn id held).symm⟩

/-- A routine that lives is called under the name of its type. -/
theorem Sound.owner_ref (sound : arena.Sound)
    (noDot : '.' ∉ arena.className.toList) {id : RoutineId} (lives : id ∈ arena.live) :
    (arena.get id).ref.owner = (arena.get id).proxyClass := by
  obtain ⟨type, typeIn, member⟩ := List.mem_flatMap.mp lives
  have named : type.name ∈ (List.range arena.types.length).map arena.typeName := by
    rw [← sound.types_eq]
    exact List.mem_map_of_mem typeIn
  obtain ⟨position, _, nameEq⟩ := List.mem_map.mp named
  rw [Routine.ref, MethodRef.ofNames, sound.home type typeIn id member, ← nameEq]
  exact Text.slashed_eq (dot_notMem_typeName noDot position)

theorem Sound.nodup_proxies (sound : arena.Sound) :
    ((arena.proxiesOf store).map GeneratedProxy.name).Nodup := by
  rw [proxiesOf, List.map_map]
  exact (List.filter_sublist.map ProxyType.name).nodup sound.nodup_names

theorem Sound.name_inj (sound : arena.Sound) {first second : RoutineId}
    (firstKnown : arena.Knows first) (secondKnown : arena.Knows second)
    (same : (arena.get first).name = (arena.get second).name) : first = second := by
  rw [sound.named first firstKnown, sound.named second secondKnown] at same
  have suffixes := congrArg String.toList same
  rw [String.toList_append, String.toList_append] at suffixes
  have padded := String.toList_inj.mp (List.append_cancel_left suffixes)
  exact congrArg RoutineId.mk (padded_inj padded)

/-- No two methods that are generated have the same key. -/
theorem Sound.nodup_keys (sound : arena.Sound) (makes : arena.Makes store arena.live) :
    (((arena.proxiesOf store).flatMap GeneratedProxy.methods).map fun method =>
      Machine.MethodKey.ofRef method.ref).Nodup := by
  rw [methods_proxiesOf, List.map_map]
  refine List.Nodup.map_on ?_ sound.nodup_live
  intro first firstLives second secondLives same
  have names := congrArg Machine.MethodKey.name same
  dsimp only [Function.comp_apply, Machine.MethodKey.ofRef] at names
  rw [makes.ref_eq firstLives, makes.ref_eq secondLives] at names
  exact sound.name_inj (sound.known first firstLives) (sound.known second secondLives) names

end Arena

namespace Machine.Program

variable {program : Program}

/-- Methods that are added one after the other stand before those that are there, the last first. -/
theorem bodies_addBodies (program : Program) (methods : List Body) :
    (methods.foldl addBody program).bodies =
      (methods.map fun method => (MethodKey.ofRef method.ref, method)).reverse ++
        program.bodies ∧
    (methods.foldl addBody program).natives = program.natives := by
  induction methods generalizing program with
  | nil => exact ⟨rfl, rfl⟩
  | cons method rest ih =>
      obtain ⟨bodiesEq, nativesEq⟩ := ih (program.addBody method)
      rw [List.foldl_cons, bodiesEq, nativesEq, List.map_cons, List.reverse_cons,
        List.append_assoc]
      exact ⟨rfl, rfl⟩

theorem bodies_addProxies (program : Program) (proxies : List GeneratedProxy) :
    (program.addProxies proxies).bodies =
      ((proxies.flatMap GeneratedProxy.methods).map fun method =>
        (MethodKey.ofRef method.ref, method)).reverse ++ program.bodies ∧
    (program.addProxies proxies).natives = program.natives := by
  induction proxies generalizing program with
  | nil => exact ⟨rfl, rfl⟩
  | cons proxy rest ih =>
      obtain ⟨bodiesEq, nativesEq⟩ :=
        ih (proxy.methods.foldl addBody (program.addClass proxy.name))
      obtain ⟨ownBodies, ownNatives⟩ :=
        bodies_addBodies (program.addClass proxy.name) proxy.methods
      rw [addProxies, List.foldl_cons, ← addProxies, bodiesEq, nativesEq, ownBodies, ownNatives,
        List.flatMap_cons, List.map_append, List.reverse_append, List.append_assoc]
      exact ⟨rfl, rfl⟩

/-- Of methods with different keys each is found under its own. -/
theorem resolve?_addProxies {proxies : List GeneratedProxy} {method : Body} {ref : MethodRef}
    (distinct : ((proxies.flatMap GeneratedProxy.methods).map fun method =>
      MethodKey.ofRef method.ref).Nodup)
    (member : method ∈ proxies.flatMap GeneratedProxy.methods) (same : method.ref = ref)
    (interpreted : program.natives.lookup (.ofRef ref) = none) :
    (program.addProxies proxies).resolve? ref = some (.body method) := by
  obtain ⟨bodiesEq, nativesEq⟩ := bodies_addProxies program proxies
  have found : ((proxies.flatMap GeneratedProxy.methods).map fun method =>
      (MethodKey.ofRef method.ref, method)).reverse.lookup (.ofRef ref) = some method := by
    have present : (MethodKey.ofRef ref, method) ∈ ((proxies.flatMap GeneratedProxy.methods).map
        fun method => (MethodKey.ofRef method.ref, method)).reverse :=
      List.mem_reverse.mpr (List.mem_map.mpr ⟨method, member, by rw [same]⟩)
    obtain ⟨front, back, parts⟩ := List.append_of_mem present
    refine List.lookup_eq_some_iff.mpr ⟨front, back, parts, ?_⟩
    intro entry entryIn
    have once : ((front ++ (MethodKey.ofRef ref, method) :: back).map Prod.fst).Nodup := by
      rw [← parts, List.map_reverse, List.nodup_reverse, List.map_map]
      exact distinct
    rw [List.map_append, List.map_cons, List.nodup_append] at once
    have differs := once.2.2 _ (List.mem_map_of_mem entryIn) _ List.mem_cons_self
    exact bne_iff_ne.mpr differs.symm
  rw [resolve?, nativesEq, interpreted, body?, bodiesEq, List.lookup_append, found]
  rfl

end Machine.Program

end Weaver
