import Mathlib.Data.List.Forall2
import Mathlib.Data.List.Induction
import Weaver.Proofs.Dispatch.Generation

/-!
# The occupancy of proxy types

The arena is used by allocations, by discards and by events that join routines, in any order.  The
routines that live are then those that were allocated and not discarded afterwards, in the order of
their numbers; they are spread over types that are named by their positions, none holds more than its
capacity, and each type that is not empty is generated with one method for each of its routines.
-/

namespace Weaver

theorem Routine.exists_generate_of_events_nil {routine : Routine} (idle : routine.events = [])
    (store : EventStore) : ∃ body, (routine.generate store).1 = .ok body := by
  have nobody : routine.listeners store = [] := by
    rw [listeners, eventIds, idle]
    rfl
  have bare : routine.instrs [] = [.ret none] := by
    rw [instrs, branches, List.any_nil, Bool.and_false]
    rfl
  rw [generate, nobody, bare]
  exact ⟨_, rfl⟩

namespace Arena

/-- A use of the arena. -/
inductive Call where
  | allocate (body : Body) (wrapper : Wrapper) (site : Nat) (cancellable : Bool)
  | discard (id : RoutineId)
  /-- An event joins a routine that was allocated at some time. -/
  | addEvent (id : RoutineId) (store : EventStore) (event : EventId)

/-- Whether a call discards a routine. -/
def Call.discards (id : RoutineId) : Call → Bool
  | .discard other => other = id
  | _ => false

/-- The arena after a call. -/
def perform (arena : Arena) : Call → Arena
  | .allocate body wrapper site cancellable =>
      (arena.allocate body wrapper site cancellable).2
  | .discard id => arena.discard id
  | .addEvent id store event =>
      match arena.get? id with
      | some routine => arena.put (routine.addEvent store event)
      | none => arena

/-- The arena after all calls of a list. -/
def performAll (arena : Arena) (calls : List Call) : Arena := calls.foldl perform arena

/-- The routines that calls allocate, numbered from `next` on, without those that are discarded
afterwards. -/
def survivors (next : Nat) : List Call → List RoutineId
  | [] => []
  | .allocate .. :: later =>
      (if later.any (Call.discards ⟨next⟩) then [] else [⟨next⟩]) ++ survivors (next + 1) later
  | _ :: later => survivors next later

/-- The number of routines that calls allocate. -/
def allocations (calls : List Call) : Nat :=
  calls.countP fun
    | .allocate .. => true
    | _ => false

variable {arena : Arena} {id : RoutineId} {calls : List Call}

theorem performAll_concat (arena : Arena) (calls : List Call) (call : Call) :
    arena.performAll (calls ++ [call]) = (arena.performAll calls).perform call :=
  List.foldl_concat _ _ _ _

theorem knows_of_get? {routine : Routine} (found : arena.get? id = some routine) :
    arena.Knows id ∧ arena.get id = routine := by
  refine ⟨?_, by rw [get, found]; rfl⟩
  unfold get? at found
  split at found
  · cases found
  · rename_i nonzero
    have inside := (Array.getElem?_eq_some_iff.mp found).1
    exact ⟨Nat.pos_of_ne_zero nonzero, by omega⟩

/-- The types with room are types that there are, apart from a new one, and the last has room. -/
theorem opened_hasRoom (positive : 0 < arena.capacity) :
    (∀ type ∈ arena.opened.1, type ∈ arena.types) ∧
      arena.opened.2.members.length < arena.capacity := by
  unfold opened
  dsimp only
  split
  · exact ⟨fun _ member => member, positive⟩
  · split
    · exact ⟨fun _ member => member, positive⟩
    · rename_i last lastEq notFull
      exact ⟨fun _ member => List.dropLast_subset _ member, Nat.lt_of_not_le notFull⟩

/-- What an arena keeps from its settings on. -/
structure Kept (settings : Settings) (arena : Arena) : Prop where
  sound : arena.Sound
  className_eq : arena.className = settings.proxyClass
  capacity_eq : arena.capacity = max settings.maxProxyMethods 1
  within : ∀ type ∈ arena.types, type.members.length ≤ arena.capacity

namespace Kept

variable {settings : Settings}

theorem ofSettings (settings : Settings) : Kept settings (Arena.ofSettings settings) :=
  ⟨sound_ofSettings settings, rfl, rfl, List.forall_mem_nil _⟩

theorem positive (kept : Kept settings arena) : 0 < arena.capacity := by
  rw [kept.capacity_eq]
  exact Nat.lt_of_lt_of_le Nat.zero_lt_one (Nat.le_max_right _ _)

theorem allocate (kept : Kept settings arena) (body : Body) (wrapper : Wrapper) (site : Nat)
    (cancellable : Bool) : Kept settings (arena.allocate body wrapper site cancellable).2 where
  sound := kept.sound.allocate body wrapper site cancellable
  className_eq := kept.className_eq
  capacity_eq := kept.capacity_eq
  within := by
    obtain ⟨present, room⟩ := opened_hasRoom kept.positive
    intro type typeIn
    rw [types_allocate] at typeIn
    rcases List.mem_append.mp typeIn with front | last
    · exact kept.within type (present type front)
    · rw [List.mem_singleton.mp last, List.length_append]
      exact room

theorem discard (kept : Kept settings arena) (id : RoutineId) :
    Kept settings (arena.discard id) where
  sound := kept.sound.discard id
  className_eq := kept.className_eq
  capacity_eq := kept.capacity_eq
  within := by
    intro type typeIn
    obtain ⟨present, presentIn, rfl⟩ := List.mem_map.mp typeIn
    exact Nat.le_trans (List.length_filter_le _ _) (kept.within present presentIn)

/-- Every call keeps what the arena has kept so far. -/
theorem perform (kept : Kept settings arena) (call : Call) :
    Kept settings (arena.perform call) := by
  cases call with
  | allocate body wrapper site cancellable => exact kept.allocate body wrapper site cancellable
  | discard id => exact kept.discard id
  | addEvent id store event =>
      dsimp only [Arena.perform]
      split
      · rename_i routine found
        obtain ⟨known, rfl⟩ := knows_of_get? found
        exact ⟨kept.sound.put known (kept.sound.numbered id known) rfl rfl, kept.className_eq,
          kept.capacity_eq, kept.within⟩
      · exact kept

theorem performAll (settings : Settings) (calls : List Call) :
    Kept settings ((Arena.ofSettings settings).performAll calls) := by
  induction calls using List.reverseRecOn with
  | nil => exact ofSettings settings
  | append_singleton calls call ih =>
      rw [performAll_concat]
      exact ih.perform call

end Kept

section Survivors

/-- One more call adds the routine that it allocates and takes away the one that it discards. -/
theorem survivors_concat (next : Nat) (calls : List Call) (call : Call) :
    survivors next (calls ++ [call]) =
      (survivors next calls).filter (fun id => !call.discards id) ++
        survivors (next + allocations calls) [call] := by
  induction calls generalizing next with
  | nil => rfl
  | cons first later ih =>
      cases first with
      | allocate body wrapper site cancellable =>
          have allocationsEq : next + allocations (.allocate body wrapper site cancellable :: later) =
              next + 1 + allocations later := by
            rw [allocations, List.countP_cons_of_pos rfl, ← allocations]
            omega
          rw [List.cons_append, survivors, survivors, ih, allocationsEq, List.filter_append,
            List.append_assoc, List.any_append, List.any_cons, List.any_nil, Bool.or_false]
          cases later.any (Call.discards ⟨next⟩) <;> cases gone : call.discards ⟨next⟩ <;>
            simp [gone]
      | discard id =>
          rw [List.cons_append, survivors, survivors, ih]
          · rfl
          all_goals nofun
      | addEvent id store event =>
          rw [List.cons_append, survivors, survivors, ih]
          · rfl
          all_goals nofun

/-- A call takes the routine that it discards from those that live and puts behind them the one that
it allocates. -/
theorem live_perform (arena : Arena) (call : Call) :
    (arena.perform call).live =
      arena.live.filter (fun id => !call.discards id) ++
        survivors (arena.routines.size + 1) [call] := by
  have all : arena.live.filter (fun _ => !false) = arena.live :=
    List.filter_eq_self.mpr fun _ _ => rfl
  cases call with
  | allocate body wrapper site cancellable =>
      rw [perform, live_allocate]
      exact congrArg (· ++ _) all.symm
  | discard id =>
      rw [perform, live_discard, survivors, survivors, List.append_nil]
      · exact List.filter_congr fun other _ => by simp [Call.discards, eq_comm]
      · nofun
  | addEvent id store event =>
      rw [survivors, survivors, List.append_nil]
      · dsimp only [perform, Call.discards]
        rw [all]
        split <;> rfl
      · nofun

theorem size_perform (arena : Arena) (call : Call) :
    (arena.perform call).routines.size = arena.routines.size + allocations [call] := by
  cases call with
  | allocate body wrapper site cancellable => exact Array.size_push _
  | discard id => rfl
  | addEvent id store event =>
      dsimp only [perform]
      split
      · exact Array.size_setIfInBounds
      · rfl

/-- The routines that live are those that were allocated and not discarded afterwards. -/
theorem live_performAll (settings : Settings) (calls : List Call) :
    ((ofSettings settings).performAll calls).live = survivors 1 calls ∧
      ((ofSettings settings).performAll calls).routines.size = allocations calls := by
  induction calls using List.reverseRecOn with
  | nil => exact ⟨rfl, rfl⟩
  | append_singleton calls call ih =>
      obtain ⟨liveEq, sizeEq⟩ := ih
      rw [performAll_concat, live_perform, size_perform, survivors_concat, liveEq, sizeEq]
      refine ⟨by rw [Nat.add_comm], ?_⟩
      exact List.countP_append.symm

/-- A routine behind a call is a new one without events, or was known before and has the events that
it had then, unless the call adds one. -/
theorem Sound.events_perform (sound : arena.Sound) {call : Call}
    (known : (arena.perform call).Knows id)
    (alone : ∀ store event, call ≠ .addEvent id store event) :
    ((arena.perform call).get id).events = [] ∨
      arena.Knows id ∧ ((arena.perform call).get id).events = (arena.get id).events := by
  cases call with
  | allocate body wrapper site cancellable =>
      have adds : Adds arena _ (arena.perform (.allocate body wrapper site cancellable)) :=
        adds_of_push rfl rfl
      rcases adds.knows_iff.mp known with old | rfl
      · exact .inr ⟨old, by rw [adds.get_other id old.2]⟩
      · exact .inl (by rw [adds.get_self])
  | discard other => exact .inr ⟨known, rfl⟩
  | addEvent other store event =>
      have differ : id ≠ other := by
        rintro rfl
        exact alone store event rfl
      dsimp only [perform] at known ⊢
      cases found : arena.get? other with
      | none =>
          rw [found] at known
          exact .inr ⟨known, rfl⟩
      | some routine =>
          rw [found] at known
          obtain ⟨otherKnown, rfl⟩ := knows_of_get? found
          have idEq : ((arena.get other).addEvent store event).id = other :=
            sound.numbered other otherKnown
          have sizeEq : (arena.put ((arena.get other).addEvent store event)).routines.size =
              arena.routines.size := Array.size_setIfInBounds
          refine .inr ⟨⟨known.1, sizeEq ▸ known.2⟩, ?_⟩
          dsimp only
          rw [get_put arena (idEq.symm ▸ otherKnown.1), if_neg fun here => differ (here.1.trans idEq)]

/-- A routine that no event has joined has none. -/
theorem events_performAll (settings : Settings) (calls : List Call)
    (known : ((ofSettings settings).performAll calls).Knows id)
    (alone : ∀ store event, .addEvent id store event ∉ calls) :
    (((ofSettings settings).performAll calls).get id).events = [] := by
  induction calls using List.reverseRecOn with
  | nil =>
      obtain ⟨positive, inside⟩ := known
      exact absurd (Nat.lt_of_lt_of_le positive inside) (Nat.lt_irrefl 0)
  | append_singleton calls call ih =>
      have sound := (Kept.performAll settings calls).sound
      have aloneLast : ∀ store event, call ≠ .addEvent id store event := by
        rintro store event rfl
        exact alone store event (List.mem_append_right _ List.mem_cons_self)
      rw [performAll_concat] at known ⊢
      rcases sound.events_perform known aloneLast with new | ⟨old, same⟩
      · exact new
      · rw [same]
        exact ih old fun store event member => alone store event (List.mem_append_left _ member)

end Survivors

theorem map_filter_eq {types : List ProxyType} (away : ∀ type ∈ types, id ∉ type.members) :
    types.map (fun type => { type with members := type.members.filter (· ≠ id) }) = types := by
  refine (List.map_congr_left ?_).trans (List.map_id _)
  intro type typeIn
  rw [filter_eq_of_notMem (away type typeIn)]
  rfl

theorem discard_of_notMem (away : id ∉ arena.live) : arena.discard id = arena := by
  rw [discard, map_filter_eq]
  exact fun type typeIn member => away (List.mem_flatMap.mpr ⟨type, typeIn, member⟩)

/-- Discarding a routine that lives takes it out of its type and leaves all else. -/
theorem Sound.discard_of_mem (sound : arena.Sound) (lives : id ∈ arena.live) :
    ∃ front home back, arena.types = front ++ home :: back ∧ id ∈ home.members ∧
      arena.discard id =
        { arena with
          types := front ++ { home with members := home.members.erase id } :: back } := by
  obtain ⟨home, homeIn, member⟩ := List.mem_flatMap.mp lives
  obtain ⟨front, back, typesEq⟩ := List.append_of_mem homeIn
  have once := sound.nodup_live
  rw [live, typesEq, List.flatMap_append, List.flatMap_cons, List.nodup_append,
    List.nodup_append] at once
  obtain ⟨_, ⟨onceHome, _, apartBack⟩, apartFront⟩ := once
  have awayFront : ∀ type ∈ front, id ∉ type.members := fun type typeIn here =>
    apartFront id (List.mem_flatMap.mpr ⟨type, typeIn, here⟩) id
      (List.mem_append_left _ member) rfl
  have awayBack : ∀ type ∈ back, id ∉ type.members := fun type typeIn here =>
    apartBack id member id (List.mem_flatMap.mpr ⟨type, typeIn, here⟩) rfl
  refine ⟨front, home, back, typesEq, member, ?_⟩
  have taken : home.members.filter (· ≠ id) = home.members.erase id := by
    rw [onceHome.erase_eq_filter]
    exact List.filter_congr fun other _ => decide_not
  rw [Arena.discard, typesEq, List.map_append, List.map_cons, map_filter_eq awayFront,
    map_filter_eq awayBack, taken]

/-- The proxies of some types: one for each type, named after it, with one method for each of its
routines, which is the body of the routine and is found where the routine is called. -/
def Presents (arena : Arena) (store : EventStore) (types : List ProxyType)
    (proxies : List GeneratedProxy) : Prop :=
  List.Forall₂ (fun type proxy => proxy.name = type.name ∧
    List.Forall₂ (fun id method => ((arena.get id).generate store).1 = .ok method ∧
      method.ref = (arena.get id).ref) type.members proxy.methods) types proxies

theorem presents_proxiesOf {store : EventStore} (makes : arena.Makes store arena.live) :
    arena.Presents store (arena.types.filter (!·.members.isEmpty)) (arena.proxiesOf store) := by
  rw [Presents, proxiesOf, List.forall₂_map_right_iff, List.forall₂_same]
  intro type kept
  refine ⟨rfl, ?_⟩
  rw [List.forall₂_map_right_iff, List.forall₂_same]
  intro id member
  have lives : id ∈ arena.live :=
    List.mem_flatMap.mpr ⟨type, List.mem_of_mem_filter kept, member⟩
  exact ⟨makes id lives, makes.ref_eq lives⟩

/-- An arena is in the state that a list of calls has made of it. -/
structure Represents (settings : Settings) (calls : List Call) (arena : Arena) : Prop where
  live_eq : arena.live = survivors 1 calls
  ids : ∀ id ∈ arena.live, (arena.get id).id = id
  /-- No number is listed twice, and lower numbers come first. -/
  ascending : arena.live.Pairwise fun first second => first.number < second.number
  names : (arena.live.map fun id => (arena.get id).name).Nodup
  typeNames : ∀ position type, arena.types[position]? = some type →
    type.name = if position = 0 then settings.proxyClass else s!"{settings.proxyClass}${position}"
  home : ∀ type ∈ arena.types, ∀ id ∈ type.members, (arena.get id).proxyClass = type.name
  capacity : ∀ type ∈ arena.types, type.members.length ≤ max 1 settings.maxProxyMethods
  discard_of_mem : ∀ id ∈ arena.live, ∃ front home back,
    arena.types = front ++ home :: back ∧ id ∈ home.members ∧
      arena.discard id =
        { arena with
          types := front ++ { home with members := home.members.erase id } :: back }
  discard_of_notMem : ∀ id ∉ arena.live, arena.discard id = arena
  /-- Generation can fail only for a routine that events have joined, and only if its arguments are
  too many to be loaded. -/
  generate : ∀ store : EventStore,
    (∀ id ∈ arena.live, (∃ store event, .addEvent id store event ∈ calls) →
      (arena.get id).signature.totalSlots ≤ slotLimit) →
    ∃ proxies, (arena.generate store).1 = .ok proxies ∧
      arena.Presents store (arena.types.filter (!·.members.isEmpty)) proxies ∧
      (proxies.map GeneratedProxy.name).Nodup ∧ ∀ proxy ∈ proxies, proxy.methods ≠ []

/-- Whatever allocations, discards and joining events there were, the arena represents them. -/
theorem represents_performAll (settings : Settings) (calls : List Call) :
    Represents settings calls ((ofSettings settings).performAll calls) := by
  have kept := Kept.performAll settings calls
  have liveEq := (live_performAll settings calls).1
  have noEvents := fun id => @events_performAll id settings calls
  set arena := (ofSettings settings).performAll calls
  have sound := kept.sound
  constructor
  case live_eq => exact liveEq
  case ids => exact fun id lives => sound.numbered id (sound.known id lives)
  case ascending => exact sound.ascending
  case names =>
    refine List.Nodup.map_on ?_ sound.nodup_live
    intro first firstLives second secondLives same
    exact sound.name_inj (sound.known first firstLives) (sound.known second secondLives) same
  case typeNames =>
    intro position type here
    have named : (arena.types.map ProxyType.name)[position]? = some type.name := by
      rw [List.getElem?_map, here]
      rfl
    have inside := (List.getElem?_eq_some_iff.mp here).1
    rw [sound.types_eq, List.getElem?_map, List.getElem?_range inside] at named
    rw [← Option.some.inj named, typeName, kept.className_eq]
  case home => exact sound.home
  case capacity =>
    intro type typeIn
    rw [Nat.max_comm, ← kept.capacity_eq]
    exact kept.within type typeIn
  case discard_of_mem => exact fun id lives => sound.discard_of_mem lives
  case discard_of_notMem => exact fun id away => discard_of_notMem away
  case generate =>
    intro store narrow
    have makes : arena.Makes store arena.live := by
      intro id lives
      have made : ∃ body, ((arena.get id).generate store).1 = .ok body := by
        by_cases joined : ∃ store event, .addEvent id store event ∈ calls
        · obtain ⟨body, generated, _⟩ := Routine.generate_eq_ok (narrow id lives joined) store
          exact ⟨body, generated⟩
        · refine Routine.exists_generate_of_events_nil ?_ store
          exact noEvents id (sound.known id lives) fun store event member =>
            joined ⟨store, event, member⟩
      obtain ⟨body, generated⟩ := made
      rw [bodyOf, generated]
      rfl
    refine ⟨arena.proxiesOf store, generate_eq makes, presents_proxiesOf makes,
      sound.nodup_proxies, ?_⟩
    intro proxy proxyIn
    obtain ⟨type, filled, rfl⟩ := List.mem_map.mp proxyIn
    have nonempty : type.members ≠ [] := by simpa using (List.mem_filter.mp filled).2
    exact mt List.map_eq_nil_iff.mp nonempty

end Arena

end Weaver
