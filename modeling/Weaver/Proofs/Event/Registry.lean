import Mathlib.Data.List.Induction
import Weaver.Proofs.Engine.Hosted
import Weaver.Proofs.Text.Folding

/-!
# The registry of events

A registry is made by definitions, some of which are refused and some of which repeat a name.  What
it holds is a function of the list of definitions: one event for each name that is not blank, spelled
and ranked as in the first definition of that name and numbered by its place among the first
definitions.  So the map from names to handles, the counter that numbers the events, the comparison of
events by their names and the order into which they are sorted never come apart: lookup, the answers to
further definitions and the sorted list of events are those of this list of first definitions.
-/

namespace Weaver

/-- What is asked of a registry: an event of a name, with a flag and a priority. -/
structure Definition where
  name : String
  cancellable : Bool
  priority : Int
  deriving DecidableEq

namespace Definition

/-- The name by which the defined event is told apart. -/
def key (definition : Definition) : String := Text.folded definition.name

/-- The event of a definition, at its place in the order of creation. -/
def event (definition : Definition) (order : Nat) : Event :=
  .ofName definition.name definition.cancellable definition.priority order

/-- The first definition of each name, in their order; blank names define nothing. -/
def firsts : List Definition → List Definition
  | [] => []
  | definition :: later =>
      if Text.isBlank definition.name then firsts later
      else definition :: (firsts later).filter fun other => other.key ≠ definition.key

variable {calls later : List Definition} {call : Definition} {key : String}

theorem firsts_of_blank (blank : Text.isBlank call.name = true) :
    firsts (call :: later) = firsts later := if_pos blank

theorem firsts_of_not_blank (filled : ¬ Text.isBlank call.name = true) :
    firsts (call :: later) =
      call :: (firsts later).filter fun other => other.key ≠ call.key := if_neg filled

/-- A definition in front adds its own name to those that are defined. -/
theorem exists_mem_firsts_cons (filled : ¬ Text.isBlank call.name = true) :
    (∃ first ∈ firsts (call :: later), first.key = key) ↔
      call.key = key ∨ ∃ first ∈ firsts later, first.key = key := by
  rw [firsts_of_not_blank filled]
  constructor
  · rintro ⟨first, member, keyEq⟩
    rcases List.mem_cons.mp member with rfl | behind
    · exact .inl keyEq
    · exact .inr ⟨first, (List.mem_filter.mp behind).1, keyEq⟩
  · by_cases same : call.key = key
    · exact fun _ => ⟨call, List.mem_cons_self, same⟩
    · rintro (here | ⟨first, member, keyEq⟩)
      · exact absurd here same
      · have differ : first.key ≠ call.key := fun equal => same (equal.symm.trans keyEq)
        exact ⟨first, List.mem_cons_of_mem _ (List.mem_filter.mpr ⟨member, decide_eq_true differ⟩),
          keyEq⟩

/-- The names that are defined are those that were asked for and are not blank. -/
theorem exists_mem_firsts_iff :
    (∃ first ∈ firsts calls, first.key = key) ↔
      ∃ call ∈ calls, ¬ Text.isBlank call.name = true ∧ call.key = key := by
  induction calls with
  | nil => simp [firsts]
  | cons call later ih =>
      by_cases blank : Text.isBlank call.name = true
      · rw [firsts_of_blank blank, ih, List.exists_mem_cons_iff]
        exact (or_iff_right fun asked => asked.1 blank).symm
      · rw [exists_mem_firsts_cons blank, ih, List.exists_mem_cons_iff, and_iff_right blank]

/-- One more definition is a first one if its name is neither blank nor known. -/
theorem firsts_concat (calls : List Definition) (next : Definition) :
    firsts (calls ++ [next]) =
      if Text.isBlank next.name = true ∨ ∃ first ∈ firsts calls, first.key = next.key
      then firsts calls else firsts calls ++ [next] := by
  induction calls with
  | nil => simp [firsts]
  | cons call later ih =>
      by_cases blank : Text.isBlank call.name = true
      · rw [List.cons_append, firsts_of_blank blank, firsts_of_blank blank, ih]
      · simp only [exists_mem_firsts_cons blank]
        rw [List.cons_append, firsts_of_not_blank blank, firsts_of_not_blank blank, ih]
        by_cases old : Text.isBlank next.name = true ∨ ∃ first ∈ firsts later, first.key = next.key
        · rw [if_pos old, if_pos (old.imp_right .inr)]
        · rw [if_neg old, List.filter_append, List.filter_singleton]
          by_cases same : call.key = next.key
          · rw [if_pos (.inr (.inl same))]
            simp [same]
          · have new : ¬ (Text.isBlank next.name = true ∨
                call.key = next.key ∨ ∃ first ∈ firsts later, first.key = next.key) := by
              rw [not_or] at old
              rw [not_or, not_or]
              exact ⟨old.1, same, old.2⟩
            rw [if_neg new]
            simp [Ne.symm same]

theorem firsts_isPrefix_append (calls later : List Definition) :
    firsts calls <+: firsts (calls ++ later) := by
  induction later using List.reverseRecOn with
  | nil => simp only [List.append_nil, List.prefix_rfl]
  | append_singleton later last ih =>
      rw [← List.append_assoc, firsts_concat]
      split
      · exact ih
      · exact ih.trans (List.prefix_append _ _)

end Definition

namespace EventStore

/-- Enter a definition: the answer, and the store after it. -/
def enter (store : EventStore) (definition : Definition) : Except Error EventId × EventStore :=
  store.define definition.name definition.cancellable definition.priority

/-- The store after entering all definitions of a list, accepted or refused. -/
def enterAll (store : EventStore) (definitions : List Definition) : EventStore :=
  definitions.foldl (fun store definition => (store.enter definition).2) store

/-- The store that holds exactly the events of the given definitions, in their order. -/
def ofDefinitions (definitions : List Definition) : EventStore :=
  .ofList (definitions.mapIdx fun order definition => definition.event order)

variable {store : EventStore} {id : EventId} {definition : Definition}

theorem Orderly.mem_entries_iff (orderly : store.Orderly) {key : String} :
    (key, id) ∈ store.registry.entries ↔
      id ∈ store.registered ∧ Text.folded (store.get id).name = key := by
  constructor
  · exact fun entry => ⟨List.mem_map.mpr ⟨_, entry, rfl⟩, orderly.keyed _ entry⟩
  · rintro ⟨member, rfl⟩
    obtain ⟨key, entry⟩ := exists_entry member
    rw [show Text.folded (store.get id).name = key from orderly.keyed _ entry]
    exact entry

theorem Orderly.same_iff (orderly : store.Orderly) {other : EventId}
    (member : id ∈ store.registered) (otherMember : other ∈ store.registered) :
    (store.get id).same (store.get other) = true ↔ id = other := by
  constructor
  · exact fun same => orderly.keys id member other otherMember (of_decide_eq_true same)
  · rintro rfl
    exact decide_eq_true rfl

theorem enter_of_blank (blank : Text.isBlank definition.name = true) :
    store.enter definition = (.error (.configuration .blankEventName), store) := by
  rw [enter, define, if_pos blank]

/-- A known name is answered by the handle of its event, or refused for its flag. -/
theorem enter_of_known (filled : ¬ Text.isBlank definition.name = true)
    (known : store.find? definition.name = some id) :
    store.enter definition =
      (if (store.get id).cancellable = definition.cancellable then .ok id
        else .error (.duplicateEvent definition.name (store.get id).cancellable
          definition.cancellable), store) := by
  rw [enter, define, if_neg filled, known]
  dsimp only
  by_cases sameFlag : (store.get id).cancellable = definition.cancellable
  · rw [if_pos sameFlag, if_pos sameFlag]
  · rw [if_neg sameFlag, if_neg sameFlag]

/-- A new name is entered for an event that has the place of the counter. -/
theorem enter_of_new (filled : ¬ Text.isBlank definition.name = true)
    (new : store.find? definition.name = none) :
    store.enter definition =
      (.ok ⟨store.events.size⟩, store.enroll (definition.event store.registry.nextOrder)) := by
  rw [enter, define, if_neg filled, new]
  rfl

theorem Orderly.enterAll (orderly : store.Orderly) (definitions : List Definition) :
    (store.enterAll definitions).Orderly := by
  induction definitions generalizing store with
  | nil => exact orderly
  | cons definition later ih => exact ih (orderly.define rfl).1

/-- The handle that is given for a definition is that of the event of its name, which has its flag. -/
theorem Orderly.find?_of_enter (orderly : store.Orderly) {after : EventStore}
    (entered : store.enter definition = (.ok id, after)) :
    ¬ Text.isBlank definition.name = true ∧ after.find? definition.name = some id ∧
      (after.get id).cancellable = definition.cancellable := by
  have filled : ¬ Text.isBlank definition.name = true := by
    intro blank
    rw [enter_of_blank blank] at entered
    cases entered
  refine ⟨filled, ?_⟩
  cases found : store.find? definition.name with
  | some known =>
      rw [enter_of_known filled found] at entered
      obtain ⟨answer, rfl⟩ := Prod.mk.inj entered
      by_cases sameFlag : (store.get known).cancellable = definition.cancellable
      · rw [if_pos sameFlag] at answer
        cases answer
        exact ⟨found, sameFlag⟩
      · rw [if_neg sameFlag] at answer
        cases answer
  | none =>
      have orderlyAfter := (orderly.define entered).1
      rw [enter_of_new filled found] at entered
      cases entered
      have self := get_keep_self store (definition.event store.registry.nextOrder)
      refine ⟨orderlyAfter.find?_eq_some_iff.mpr ⟨?_, ?_⟩, ?_⟩
      · rw [registered_enroll]
        exact List.mem_append_right _ List.mem_cons_self
      · exact congrArg Event.key self
      · exact congrArg Event.cancellable self

section OfDefinitions

variable {definitions : List Definition} {index : Nat}

theorem registered_ofDefinitions (definitions : List Definition) :
    (ofDefinitions definitions).registered = (List.range definitions.length).map EventId.mk := by
  refine List.ext_getElem? fun index => ?_
  by_cases inside : index < definitions.length <;>
    simp [registered, ofDefinitions, ofList, inside]

theorem mem_registered_ofDefinitions :
    id ∈ (ofDefinitions definitions).registered ↔ id.index < definitions.length := by
  rw [registered_ofDefinitions]
  constructor
  · intro member
    obtain ⟨index, inside, rfl⟩ := List.mem_map.mp member
    exact List.mem_range.mp inside
  · exact fun inside => List.mem_map.mpr ⟨id.index, List.mem_range.mpr inside, rfl⟩

theorem nodup_registered_ofDefinitions : (ofDefinitions definitions).registered.Nodup := by
  rw [registered_ofDefinitions]
  exact List.nodup_range.map fun _ _ => congrArg EventId.index

theorem length_registered_ofDefinitions :
    (ofDefinitions definitions).registered.length = definitions.length := by
  rw [registered_ofDefinitions, List.length_map, List.length_range]

theorem nextOrder_ofDefinitions :
    (ofDefinitions definitions).registry.nextOrder = definitions.length :=
  List.length_mapIdx

theorem get_ofDefinitions (here : definitions[index]? = some definition) :
    (ofDefinitions definitions).get ⟨index⟩ = definition.event index := by
  simp [get, get?, ofDefinitions, ofList, here]

theorem map_get_registered_ofDefinitions (definitions : List Definition) :
    (ofDefinitions definitions).registered.map (ofDefinitions definitions).get =
      definitions.mapIdx fun order definition => definition.event order := by
  refine List.ext_getElem? fun index => ?_
  by_cases inside : index < definitions.length
  · have here : definitions[index]? = some definitions[index] := List.getElem?_eq_getElem inside
    have handle : (ofDefinitions definitions).registered[index]? = some ⟨index⟩ := by
      simp [registered_ofDefinitions, inside]
    rw [List.getElem?_map, handle, List.getElem?_mapIdx, here, Option.map_some,
      get_ofDefinitions here, Option.map_some]
  · rw [List.getElem?_eq_none, List.getElem?_eq_none]
    · rw [List.length_mapIdx]
      exact not_lt.mp inside
    · rw [List.length_map, length_registered_ofDefinitions]
      exact not_lt.mp inside

/-- Enrolling the event of a definition behind the others adds the definition. -/
theorem enroll_ofDefinitions (definitions : List Definition) (definition : Definition) :
    (ofDefinitions definitions).enroll (definition.event definitions.length) =
      ofDefinitions (definitions ++ [definition]) := by
  simp [ofDefinitions, ofList, enroll, keep, EventRegistry.add, List.mapIdx_concat]

/-- Lookup in a store of definitions finds the place of the definition of a name. -/
theorem find?_ofDefinitions_eq_some_iff (orderly : (ofDefinitions definitions).Orderly)
    {name : String} :
    (ofDefinitions definitions).find? name = some id ↔
      ∃ known, definitions[id.index]? = some known ∧ known.key = Text.folded name := by
  rw [orderly.find?_eq_some_iff, mem_registered_ofDefinitions]
  constructor
  · rintro ⟨inside, keyEq⟩
    have here := List.getElem?_eq_getElem inside
    refine ⟨_, here, ?_⟩
    rwa [get_ofDefinitions here] at keyEq
  · rintro ⟨known, here, keyEq⟩
    refine ⟨(List.getElem?_eq_some_iff.mp here).1, ?_⟩
    rw [get_ofDefinitions here]
    exact keyEq

theorem exists_find?_ofDefinitions_iff (orderly : (ofDefinitions definitions).Orderly)
    {name : String} :
    (∃ id, (ofDefinitions definitions).find? name = some id) ↔
      ∃ known ∈ definitions, known.key = Text.folded name := by
  simp only [find?_ofDefinitions_eq_some_iff orderly]
  constructor
  · rintro ⟨id, known, here, keyEq⟩
    exact ⟨known, List.mem_of_getElem? here, keyEq⟩
  · rintro ⟨known, member, keyEq⟩
    obtain ⟨index, here⟩ := List.mem_iff_getElem?.mp member
    exact ⟨⟨index⟩, known, here, keyEq⟩

end OfDefinitions

theorem enterAll_concat (store : EventStore) (calls : List Definition) (next : Definition) :
    store.enterAll (calls ++ [next]) = ((store.enterAll calls).enter next).2 :=
  List.foldl_concat _ _ _ _

/-- What a registry holds is made by the first definitions of each name alone. -/
theorem enterAll_empty (calls : List Definition) :
    empty.enterAll calls = ofDefinitions (Definition.firsts calls) := by
  induction calls using List.reverseRecOn with
  | nil => rfl
  | append_singleton calls next ih =>
      have orderly := orderly_empty.enterAll calls
      rw [enterAll_concat, Definition.firsts_concat]
      rw [ih] at orderly ⊢
      by_cases blank : Text.isBlank next.name = true
      · rw [if_pos (.inl blank), enter_of_blank blank]
      · cases found : (ofDefinitions (Definition.firsts calls)).find? next.name with
        | some id =>
            have known := (exists_find?_ofDefinitions_iff orderly).mp ⟨id, found⟩
            rw [if_pos (.inr known), enter_of_known blank found]
        | none =>
            have new : ¬ ∃ first ∈ Definition.firsts calls, first.key = next.key := by
              intro known
              obtain ⟨id, foundId⟩ := (exists_find?_ofDefinitions_iff orderly).mpr known
              rw [found] at foundId
              cases foundId
            rw [if_neg (not_or.mpr ⟨blank, new⟩), enter_of_new blank found, nextOrder_ofDefinitions]
            exact enroll_ofDefinitions _ _

/-- A handle that is given for a definition is the place of the first definition of its name, whatever
is entered later. -/
theorem exists_first_of_enter {before : List Definition} {call : Definition} {after : EventStore}
    (entered : (empty.enterAll before).enter call = (.ok id, after)) (later : List Definition) :
    ∃ first, ¬ Text.isBlank call.name = true ∧ first.key = call.key ∧
      first.cancellable = call.cancellable ∧ after.get id = first.event id.index ∧
      (Definition.firsts (before ++ call :: later))[id.index]? = some first := by
  have orderlyBefore : (empty.enterAll before).Orderly := orderly_empty.enterAll before
  obtain ⟨filled, found, flag⟩ := orderlyBefore.find?_of_enter entered
  have afterEq : after = ofDefinitions (Definition.firsts (before ++ [call])) := by
    rw [← enterAll_empty, enterAll_concat, entered]
  have orderlyAfter : after.Orderly := (orderlyBefore.define entered).1
  rw [afterEq] at found flag orderlyAfter ⊢
  obtain ⟨first, here, keyEq⟩ := (find?_ofDefinitions_eq_some_iff orderlyAfter).mp found
  rw [get_ofDefinitions here] at flag ⊢
  refine ⟨first, filled, keyEq, flag, rfl, ?_⟩
  obtain ⟨rest, firstsEq⟩ := Definition.firsts_isPrefix_append (before ++ [call]) later
  rw [List.append_assoc, List.singleton_append] at firstsEq
  rw [← firstsEq, List.getElem?_append_left (List.getElem?_eq_some_iff.mp here).1, here]

/-- A store is the registry that a list of definitions has made. -/
structure Registry (calls : List Definition) (store : EventStore) : Prop where
  once : store.registered.Nodup
  /-- The events in the order of their creation, which numbers them without gaps, are those of the
  first definitions of the names that are not blank. -/
  events : store.registered.map store.get =
    (Definition.firsts calls).mapIdx fun order first => first.event order
  /-- The counter is behind the places of all events, and the map holds each event by its name. -/
  counter : store.registry.nextOrder = (Definition.firsts calls).length
  keyed : ∀ key id, (key, id) ∈ store.registry.entries ↔
    id ∈ store.registered ∧ Text.folded (store.get id).name = key
  /-- Events that are the same by their own comparison have one handle. -/
  same : ∀ first ∈ store.registered, ∀ second ∈ store.registered,
    (store.get first).same (store.get second) = true ↔ first = second
  lookup : ∀ name id, store.find? name = some id ↔
    id ∈ store.registered ∧ Text.SameName (store.get id).name name
  defined : ∀ name, (∃ id, store.find? name = some id) ↔
    ∃ call ∈ calls, Text.trimmed call.name ≠ "" ∧ Text.SameName call.name name
  owned : ∀ id, store.owns id = true ↔ id ∈ store.registered
  blank : ∀ next : Definition, Text.trimmed next.name = "" →
    store.enter next = (.error (.configuration .blankEventName), store)
  known : ∀ next : Definition, Text.trimmed next.name ≠ "" →
    ∀ id ∈ store.registered, Text.SameName (store.get id).name next.name →
      store.enter next =
        (if (store.get id).cancellable = next.cancellable then .ok id
          else .error (.duplicateEvent next.name (store.get id).cancellable next.cancellable),
          store)
  new : ∀ next : Definition, Text.trimmed next.name ≠ "" →
    (∀ id ∈ store.registered, ¬ Text.SameName (store.get id).name next.name) →
      ∃ id ∉ store.registered, ∃ after, store.enter next = (.ok id, after) ∧
        after.registered = store.registered ++ [id] ∧
        after.get id = next.event store.registered.length ∧
        after.registry.nextOrder = store.registry.nextOrder + 1 ∧
        ∀ known ∈ store.registered, after.get known = store.get known
  /-- Whoever defines a name again gets the handle that was given for it before, and the event of
  this handle is the same as then. -/
  again : ∀ before call later, calls = before ++ call :: later →
    ∀ id after, (empty.enterAll before).enter call = (.ok id, after) →
      store.get id = after.get id ∧
        ∀ next : Definition, Text.SameName call.name next.name →
          next.cancellable = call.cancellable → store.enter next = (.ok id, store)
  /-- The list of events does not depend on the order in which the map holds them. -/
  sorted : store.sorted.Perm store.registered ∧
    (store.sorted.Pairwise fun first second =>
      Event.Precedes (store.get first).rank (store.get second).rank) ∧
    ∀ held, store.registered.Perm held → store.sort held = store.sorted

/-- Entering any definitions one after the other, be they accepted, repeated or refused, makes a
registry. -/
theorem registry_enterAll (calls : List Definition) :
    Registry calls (empty.enterAll calls) := by
  have orderly : (empty.enterAll calls).Orderly := orderly_empty.enterAll calls
  rw [enterAll_empty] at orderly ⊢
  constructor
  case once => exact nodup_registered_ofDefinitions
  case events => exact map_get_registered_ofDefinitions _
  case counter => exact nextOrder_ofDefinitions
  case keyed => exact fun key id => orderly.mem_entries_iff
  case same => exact fun first firstIn second secondIn => orderly.same_iff firstIn secondIn
  case lookup =>
    intro name id
    rw [orderly.find?_eq_some_iff, Event.key, Text.folded_eq_folded_iff]
  case defined =>
    intro name
    rw [exists_find?_ofDefinitions_iff orderly, Definition.exists_mem_firsts_iff]
    simp only [Text.trimmed_ne_empty_iff, Definition.key, Text.folded_eq_folded_iff]
  case owned => exact fun id => orderly.owns_iff
  case blank => exact fun next blank => enter_of_blank (Text.trimmed_eq_empty_iff.mp blank)
  case known =>
    intro next filled id member same
    exact enter_of_known (Text.trimmed_ne_empty_iff.mp filled)
      (orderly.find?_eq_some_iff.mpr ⟨member, Text.folded_eq_folded_iff.mpr same⟩)
  case new =>
    intro next filled apart
    have unknown : (ofDefinitions (Definition.firsts calls)).find? next.name = none := by
      refine Option.eq_none_iff_forall_ne_some.mpr fun id found => ?_
      obtain ⟨member, keyEq⟩ := orderly.find?_eq_some_iff.mp found
      exact apart id member (Text.folded_eq_folded_iff.mp keyEq)
    refine ⟨_, fun member => ?_, _, enter_of_new (Text.trimmed_ne_empty_iff.mp filled) unknown,
      registered_enroll _ _, ?_, rfl, fun known member => get_keep _ _ (orderly.inside known member)⟩
    · exact lt_irrefl _ (orderly.inside _ member)
    · rw [length_registered_ofDefinitions, ← nextOrder_ofDefinitions]
      exact get_keep_self _ _
  case again =>
    rintro before call later rfl id after entered
    obtain ⟨known, filled, keyEq, flag, getEq, here⟩ := exists_first_of_enter entered later
    refine ⟨(get_ofDefinitions here).trans getEq.symm, fun next same sameFlag => ?_⟩
    have found : (ofDefinitions (Definition.firsts (before ++ call :: later))).find? next.name =
        some id :=
      (find?_ofDefinitions_eq_some_iff orderly).mpr
        ⟨known, here, keyEq.trans (Text.folded_eq_folded_iff.mpr same)⟩
    rw [same.isBlank_eq] at filled
    rw [enter_of_known filled found, get_ofDefinitions here, if_pos]
    exact flag.trans sameFlag.symm
  case sorted =>
    have once := @nodup_registered_ofDefinitions (Definition.firsts calls)
    obtain ⟨perm, ascending⟩ := orderly.sort (fun _ member => member) once
    exact ⟨perm, ascending, fun held perm =>
      (orderly.sort_eq_of_perm (fun _ member => member) once perm).symm⟩

end EventStore

end Weaver
