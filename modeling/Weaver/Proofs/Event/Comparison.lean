import Weaver.Proofs.Engine.Transformed
import Weaver.Proofs.Engine.Reachable

/-!
# The comparison of events

Events of different names are compared by their places, which are their ranks and then their names,
and places are totally ordered.  Events of one name are equal whatever their ranks, so the comparison
is a total order exactly as far as events of one name have one rank.  The registered events of a host
are such events.
-/

namespace Weaver

namespace Event

/-- Where an event stands among others: its rank, and then its name without regard to ASCII case. -/
def place (event : Event) : (Int × Nat) × String := (event.rank, event.key)

/-- The order of places. -/
def comparePlace (first second : (Int × Nat) × String) : Ordering :=
  (compareRank first.1 second.1).then (Ord.compare first.2 second.2)

instance : Std.TransCmp comparePlace :=
  inferInstanceAs (Std.TransCmp (compareLex
    (compareLex (compareOn fun place : (Int × Nat) × String => place.1.1)
      (compareOn fun place => place.1.2))
    (compareOn fun place => place.2)))

instance : Std.LawfulEqCmp comparePlace where
  eq_of_compare := by
    intro first second equal
    obtain ⟨ranks, names⟩ := Ordering.then_eq_eq.mp equal
    exact Prod.ext (compareRank_eq_eq_iff.mp ranks) (Std.LawfulEqCmp.eq_of_compare names)

theorem comparePlace_self (place : (Int × Nat) × String) : comparePlace place place = .eq :=
  Std.ReflCmp.compare_self

variable {a b c : Event}

theorem same_iff : a.same b = true ↔ a.key = b.key := decide_eq_true_iff

theorem compare_of_key_eq (same : a.key = b.key) : a.compare b = .eq :=
  if_pos (same_iff.mpr same)

theorem compare_of_key_ne (differ : a.key ≠ b.key) :
    a.compare b = comparePlace a.place b.place :=
  if_neg (mt same_iff.mp differ)

theorem comparePlace_ne_eq (differ : a.key ≠ b.key) : comparePlace a.place b.place ≠ .eq :=
  fun equal => differ (congrArg Prod.snd (Std.LawfulEqCmp.eq_of_compare equal))

theorem compare_eq_eq_iff : a.compare b = .eq ↔ a.same b = true := by
  rw [same_iff]
  by_cases same : a.key = b.key
  · exact iff_of_true (compare_of_key_eq same) same
  · rw [compare_of_key_ne same]
    exact iff_of_false (comparePlace_ne_eq same) same

theorem compare_eq_lt_iff :
    a.compare b = .lt ↔ a.key ≠ b.key ∧ comparePlace a.place b.place = .lt := by
  by_cases same : a.key = b.key
  · simp [compare_of_key_eq same, same]
  · simp [compare_of_key_ne same, same]

theorem compare_swap (a b : Event) : a.compare b = (b.compare a).swap := by
  by_cases same : a.key = b.key
  · rw [compare_of_key_eq same, compare_of_key_eq same.symm]
    rfl
  · rw [compare_of_key_ne same, compare_of_key_ne (Ne.symm same)]
    exact Std.OrientedCmp.eq_swap

theorem compare_of_lt_of_lt (front : a.compare b = .lt) (back : b.compare c = .lt) :
    comparePlace a.place c.place = .lt ∧ a.compare c = if a.same c then .eq else .lt := by
  have below : comparePlace a.place c.place = .lt :=
    Std.TransCmp.lt_trans (compare_eq_lt_iff.mp front).2 (compare_eq_lt_iff.mp back).2
  refine ⟨below, ?_⟩
  by_cases same : a.key = c.key
  · rw [if_pos (same_iff.mpr same), compare_of_key_eq same]
  · rw [if_neg (mt same_iff.mp same), compare_of_key_ne same, below]

theorem compare_congr (equal : a.place = b.place) (c : Event) : a.compare c = b.compare c := by
  have keyEq : a.key = b.key := congrArg Prod.snd equal
  by_cases same : a.key = c.key
  · rw [compare_of_key_eq same, compare_of_key_eq (keyEq.symm.trans same)]
  · rw [compare_of_key_ne same, compare_of_key_ne (keyEq ▸ same), equal]

/-- Of two events of one name, an event of another name that has the rank of either is told apart by
the one or by the other. -/
theorem exists_compare_ne (same : a.key = b.key) (lower : Precedes a.rank b.rank) :
    ∃ c : Event, a.compare c ≠ b.compare c := by
  have named : ∃ name, a.key ≠ Text.folded name := by
    have apart : Text.folded "" ≠ Text.folded "x" := by decide +kernel
    by_cases unnamed : a.key = Text.folded ""
    · exact ⟨"x", unnamed ▸ apart⟩
    · exact ⟨"", unnamed⟩
  obtain ⟨name, differ⟩ := named
  have compared (event : Event) (keyEq : event.key = a.key) (priority : Int) (order : Nat) :
      event.compare (ofName name false priority order) =
        (compareRank event.rank (priority, order)).then
          (Ord.compare a.key (Text.folded name)) := by
    rw [← keyEq]
    exact compare_of_key_ne (keyEq ▸ differ)
  have equal (rank : Int × Nat) : compareRank rank rank = .eq := compareRank_eq_eq_iff.mpr rfl
  have below : compareRank a.rank b.rank = .lt := compareRank_eq_lt_iff.mpr lower
  have above : compareRank b.rank a.rank = .gt := compareRank_eq_gt_iff.mpr lower
  -- which of the two events it is told apart from depends on the names alone
  cases names : Ord.compare a.key (Text.folded name) with
  | eq => exact absurd (Std.LawfulEqCmp.eq_of_compare names) differ
  | lt =>
      refine ⟨ofName name false a.rank.1 a.rank.2, ?_⟩
      rw [compared a rfl, compared b same.symm, names, equal, above]
      decide
  | gt =>
      refine ⟨ofName name false b.rank.1 b.rank.2, ?_⟩
      rw [compared a rfl, compared b same.symm, names, equal, below]
      decide

theorem compare_congr_iff (same : a.key = b.key) :
    (∀ c : Event, a.compare c = b.compare c) ↔ a.rank = b.rank := by
  constructor
  · intro alike
    rcases order : compareRank a.rank b.rank with _ | _ | _
    · obtain ⟨c, apart⟩ := exists_compare_ne same (compareRank_eq_lt_iff.mp order)
      exact absurd (alike c) apart
    · exact compareRank_eq_eq_iff.mp order
    · obtain ⟨c, apart⟩ := exists_compare_ne same.symm (compareRank_eq_gt_iff.mp order)
      exact absurd (alike c).symm apart
  · intro rankEq
    exact compare_congr (Prod.ext rankEq same)

/-- Events of one name have one rank. -/
def Unambiguous (events : List Event) : Prop :=
  ∀ a ∈ events, ∀ b ∈ events, a.same b = true → a.rank = b.rank

variable {events sorted : List Event}

theorem Unambiguous.place_eq (unambiguous : Unambiguous events) (aIn : a ∈ events)
    (bIn : b ∈ events) (same : a.same b = true) : a.place = b.place :=
  Prod.ext (unambiguous a aIn b bIn same) (same_iff.mp same)

theorem Unambiguous.le_eq (unambiguous : Unambiguous events) (aIn : a ∈ events)
    (bIn : b ∈ events) : a.le b = (comparePlace a.place b.place).isLE := by
  unfold le
  by_cases same : a.key = b.key
  · have equal := unambiguous.place_eq aIn bIn (same_iff.mpr same)
    rw [compare_of_key_eq same, equal, comparePlace_self]
  · rw [compare_of_key_ne same]

/-- A list of such events in which none comes before one in front of it has its places in order. -/
theorem Unambiguous.pairwise_places (unambiguous : Unambiguous events)
    (perm : sorted.Perm events) (ascending : sorted.Pairwise fun a b => a.le b = true) :
    (sorted.map place).Pairwise fun first second => (comparePlace first second).isLE = true := by
  rw [List.pairwise_map]
  apply ascending.imp_of_mem
  intro a b aIn bIn le
  rwa [← unambiguous.le_eq (perm.mem_iff.mp aIn) (perm.mem_iff.mp bIn)]

/-- What the comparison is worth among events: it is transitive and the same for equal events, and
sorting puts the events into the one order that there is. -/
structure Ordered (events : List Event) : Prop where
  trans : ∀ a ∈ events, ∀ b ∈ events, ∀ c ∈ events,
    a.compare b = .lt → b.compare c = .lt → a.compare c = .lt
  congr : ∀ a ∈ events, ∀ b ∈ events, a.same b = true → ∀ c, a.compare c = b.compare c
  sorts : (events.mergeSort le).Perm events ∧
    (events.mergeSort le).Pairwise fun a b => a.le b = true
  unique : ∀ sorted : List Event, sorted.Perm events →
    sorted.Pairwise (fun a b => a.le b = true) →
    sorted.map place = (events.mergeSort le).map place

theorem Unambiguous.ordered (unambiguous : Unambiguous events) : Ordered events := by
  have perm : (events.mergeSort le).Perm events := List.mergeSort_perm _ _
  have sortEq : events.mergeSort le =
      events.mergeSort fun a b => (comparePlace a.place b.place).isLE := by
    have mapped : (events.mergeSort le).map id = (events.map id).mergeSort fun a b =>
        (comparePlace a.place b.place).isLE :=
      List.map_mergeSort fun a aIn b bIn => unambiguous.le_eq aIn bIn
    rwa [List.map_id, List.map_id] at mapped
  have byPlace : (events.mergeSort le).Pairwise fun a b =>
      (comparePlace a.place b.place).isLE = true := by
    rw [sortEq]
    apply List.pairwise_mergeSort
    · intro a b c
      exact Std.TransCmp.isLE_trans
    · intro a b
      have swapped : comparePlace b.place a.place = (comparePlace a.place b.place).swap :=
        Std.OrientedCmp.eq_swap
      rw [swapped]
      cases comparePlace a.place b.place <;> rfl
  have ascending : (events.mergeSort le).Pairwise fun a b => a.le b = true := by
    apply byPlace.imp_of_mem
    intro a b aIn bIn le
    rwa [unambiguous.le_eq (perm.mem_iff.mp aIn) (perm.mem_iff.mp bIn)]
  refine ⟨?_, ?_, ⟨perm, ascending⟩, ?_⟩
  · intro a aIn b _ c cIn front back
    obtain ⟨below, compared⟩ := compare_of_lt_of_lt front back
    by_cases same : a.same c = true
    · rw [unambiguous.place_eq aIn cIn same, comparePlace_self] at below
      cases below
    · rw [compared, if_neg same]
  · intro a aIn b bIn same
    exact compare_congr (unambiguous.place_eq aIn bIn same)
  · intro sorted sortedPerm sortedAscending
    refine ((sortedPerm.trans perm.symm).map place).eq_of_pairwise ?_
      (unambiguous.pairwise_places sortedPerm sortedAscending)
      (unambiguous.pairwise_places perm ascending)
    intro first second _ _ front back
    exact Std.LawfulEqCmp.eq_of_compare (Std.OrientedCmp.isLE_antisymm front back)

end Event

namespace EventStore

theorem Orderly.unambiguous {store : EventStore} (orderly : store.Orderly) :
    Event.Unambiguous (store.registered.map store.get) := by
  intro a aIn b bIn same
  obtain ⟨first, firstIn, rfl⟩ := List.mem_map.mp aIn
  obtain ⟨second, secondIn, rfl⟩ := List.mem_map.mp bIn
  rw [orderly.keys first firstIn second secondIn (Event.same_iff.mp same)]

theorem map_sort (store : EventStore) (ids : List EventId) :
    (store.sort ids).map store.get = (ids.map store.get).mergeSort Event.le :=
  List.map_mergeSort fun _ _ _ _ => rfl

end EventStore

namespace Event

/-- What holds of the comparison of events.  It is turned round with its arguments, and equal exactly
for events of one name.  It is transitive unless the ends of a chain have one name, and two events of
one name compare alike with all others exactly if they have one rank.  So it orders events of which
those of one name have one rank, whatever they are called; and the registered events of a host, which
are sorted by it, are such events. -/
theorem compare_lawful (a b c : Event) (events : List Event) (engine : Engine) :
    a.compare b = (b.compare a).swap ∧
    (a.compare b = .eq ↔ a.same b = true) ∧
    (a.compare b = .lt → b.compare c = .lt → a.compare c = if a.same c then .eq else .lt) ∧
    (a.same b = true → ((∀ other : Event, a.compare other = b.compare other) ↔ a.rank = b.rank)) ∧
    (Unambiguous events → Ordered events) ∧
    (engine.Reachable →
      Ordered (engine.events.registered.map engine.events.get) ∧
      engine.events.sorted.map engine.events.get =
        (engine.events.registered.map engine.events.get).mergeSort le) := by
  refine ⟨compare_swap a b, compare_eq_eq_iff, ?_, ?_, Unambiguous.ordered, ?_⟩
  · intro front back
    exact (compare_of_lt_of_lt front back).2
  · intro same
    exact compare_congr_iff (same_iff.mp same)
  · intro reachable
    exact ⟨reachable.coherent.orderly.events.unambiguous.ordered, engine.events.map_sort _⟩

/-- Three events in increasing rank, the outer ones of which have one name. -/
def enclosing : Event × Event × Event :=
  (ofName "tick" false 0 0, ofName "load" false 1 1, ofName "TICK" false 2 2)

theorem compare_enclosing :
    enclosing.1.compare enclosing.2.1 = .lt ∧ enclosing.2.1.compare enclosing.2.2 = .lt ∧
      enclosing.1.compare enclosing.2.2 = .eq := by
  refine ⟨?_, ?_, ?_⟩ <;> cbv

theorem compare_lawful_enclosing :
    enclosing.1.compare enclosing.2.1 = .lt ∧ enclosing.2.1.compare enclosing.2.2 = .lt ∧
      enclosing.1.compare enclosing.2.2 = .eq ∧
      (∃ c : Event, enclosing.1.compare c ≠ enclosing.2.2.compare c) ∧
      Unambiguous [enclosing.2.2, enclosing.2.1] ∧ Ordered [enclosing.2.2, enclosing.2.1] ∧
      (Engine.hostOf Engine.twoEvents Engine.twoInjections).Reachable ∧
      Ordered Engine.twoEvents := by
  obtain ⟨front, back, ends⟩ := compare_enclosing
  let host := Engine.hostOf Engine.twoEvents Engine.twoInjections
  obtain ⟨_, _, chain, _, orders, registered⟩ :=
    compare_lawful enclosing.1 enclosing.2.1 enclosing.2.2 [enclosing.2.2, enclosing.2.1] host
  obtain ⟨_, equal, _, congruence, _⟩ :=
    compare_lawful enclosing.1 enclosing.2.2 enclosing.2.1 [] host
  have same : enclosing.1.same enclosing.2.2 = true := equal.mp ends
  have unambiguous : Unambiguous [enclosing.2.2, enclosing.2.1] := by
    have differ : enclosing.2.1.key ≠ enclosing.2.2.key := (compare_eq_lt_iff.mp back).1
    simp [Unambiguous, same_iff, differ, differ.symm]
  have reachable := Engine.hosted_twoInjections.reachable
  have listed := (registered reachable).1
  have eventsEq : host.events.registered.map host.events.get = Engine.twoEvents := by
    decide +kernel
  rw [eventsEq] at listed
  refine ⟨front, back, ?_, ?_, unambiguous, orders unambiguous, reachable, listed⟩
  · rw [chain front back, if_pos same]
  · have ranks : enclosing.1.rank ≠ enclosing.2.2.rank := by decide
    exact not_forall.mp (mt (congruence same).mp ranks)

/-- The comparison is no total order of all events.  It is not transitive, and events that it finds
equal do not compare alike. -/
theorem not_always_ordered :
    (¬ ∀ a b c : Event, a.compare b = .lt → b.compare c = .lt → a.compare c = .lt) ∧
      ¬ ∀ a b c : Event, a.same b = true → a.compare c = b.compare c := by
  obtain ⟨front, back, ends⟩ := compare_enclosing
  constructor
  · intro transitive
    have below := transitive _ _ _ front back
    rw [ends] at below
    exact absurd below (by decide)
  · intro congruent
    have alike := congruent _ _ enclosing.2.1 (compare_eq_eq_iff.mp ends)
    rw [front, compare_swap, back] at alike
    exact absurd alike (by decide)

end Event

end Weaver
