import Mathlib.Data.List.Basic
import Weaver.Dispatch.Routine

/-!
# The order of events

Events come in increasing priority and, where that is the same, in the order of their creation.  A
routine keeps the events that are added to it in this order, whatever the order of the additions.
-/

namespace Weaver

namespace Event

/-- The rank of an event that comes before that of another. -/
def Precedes (first second : Int × Nat) : Prop :=
  first.1 < second.1 ∨ first.1 = second.1 ∧ first.2 < second.2

theorem Precedes.trans {first second third : Int × Nat} (front : Precedes first second)
    (back : Precedes second third) : Precedes first third := by
  unfold Precedes at *
  omega

theorem Precedes.irrefl (rank : Int × Nat) : ¬ Precedes rank rank := by
  unfold Precedes
  omega

theorem compareRank_eq_lt_iff {first second : Int × Nat} :
    compareRank first second = .lt ↔ Precedes first second := by
  rw [compareRank, Ordering.then_eq_lt, Int.compare_eq_lt, Int.compare_eq_eq, Nat.compare_eq_lt]
  rfl

theorem compareRank_eq_eq_iff {first second : Int × Nat} :
    compareRank first second = .eq ↔ first = second := by
  rw [compareRank, Ordering.then_eq_eq, Int.compare_eq_eq, Nat.compare_eq_eq, Prod.ext_iff]

theorem compareRank_eq_gt_iff {first second : Int × Nat} :
    compareRank first second = .gt ↔ Precedes second first := by
  rw [compareRank, Ordering.then_eq_gt, Int.compare_eq_gt, Int.compare_eq_eq, Nat.compare_eq_gt]
  unfold Precedes
  rw [eq_comm]

end Event

namespace Routine

/-- Entries in increasing rank. -/
def Ascending (entries : List ((Int × Nat) × EventId)) : Prop :=
  entries.Pairwise fun first second => Event.Precedes first.1 second.1

variable {rank : Int × Nat} {id : EventId} {entries : List ((Int × Nat) × EventId)}

theorem mem_insertRanked {entry : (Int × Nat) × EventId}
    (member : entry ∈ insertRanked rank id entries) : entry = (rank, id) ∨ entry ∈ entries := by
  induction entries with
  | nil => exact .inl (List.mem_singleton.mp member)
  | cons head rest ih =>
      unfold insertRanked at member
      split at member
      · exact List.mem_cons.mp member
      · rcases List.mem_cons.mp member with same | later
        · exact .inl same
        · exact .inr (List.mem_cons_of_mem _ later)
      · rcases List.mem_cons.mp member with same | later
        · exact .inr (List.mem_cons.mpr (.inl same))
        · exact (ih later).imp_right (List.mem_cons_of_mem _)

theorem insertRanked_perm (fresh : ∀ entry ∈ entries, entry.1 ≠ rank) :
    (insertRanked rank id entries).Perm ((rank, id) :: entries) := by
  induction entries with
  | nil => exact .refl _
  | cons head rest ih =>
      have freshRest : ∀ entry ∈ rest, entry.1 ≠ rank :=
        fun entry member => fresh entry (List.mem_cons_of_mem _ member)
      unfold insertRanked
      split
      · exact .refl _
      · rename_i same
        exact absurd (Event.compareRank_eq_eq_iff.mp same).symm (fresh head List.mem_cons_self)
      · exact ((ih freshRest).cons head).trans (.swap _ _ _)

theorem Ascending.insertRanked (ascending : Ascending entries) :
    Ascending (insertRanked rank id entries) := by
  induction entries with
  | nil => exact List.pairwise_singleton _ _
  | cons head rest ih =>
      obtain ⟨above, ascendingRest⟩ := List.pairwise_cons.mp ascending
      unfold Routine.insertRanked
      split
      · rename_i lower
        have below : Event.Precedes rank head.1 := Event.compareRank_eq_lt_iff.mp lower
        apply List.pairwise_cons.mpr
        constructor
        · intro entry member
          rcases List.mem_cons.mp member with rfl | later
          · exact below
          · exact below.trans (above entry later)
        · exact ascending
      · rename_i same
        have rankEq : rank = head.1 := Event.compareRank_eq_eq_iff.mp same
        apply List.pairwise_cons.mpr
        constructor
        · intro entry member
          rw [rankEq]
          exact above entry member
        · exact ascendingRest
      · rename_i higher
        apply List.pairwise_cons.mpr
        constructor
        · intro entry member
          rcases mem_insertRanked member with rfl | later
          · exact Event.compareRank_eq_gt_iff.mp higher
          · exact above entry later
        · exact ih ascendingRest

/-- The routine with more events, each added from the store as it was then. -/
def addEvents (routine : Routine) (added : List (EventStore × EventId)) : Routine :=
  added.foldl (fun routine entry => routine.addEvent entry.1 entry.2) routine

theorem addEvents_eq (routine : Routine) (added : List (EventStore × EventId)) :
    routine.addEvents added = { routine with events := (routine.addEvents added).events } := by
  induction added generalizing routine with
  | nil => rfl
  | cons entry rest ih => exact ih (routine.addEvent entry.1 entry.2)

/-- The entry of an event that is added. -/
def entryOf (added : EventStore × EventId) : (Int × Nat) × EventId :=
  ((added.1.get added.2).rank, added.2)

/-- Events of distinct ranks are all kept, in increasing rank. -/
theorem events_addEvents (routine : Routine) (added : List (EventStore × EventId))
    (ascending : Ascending routine.events)
    (distinct : ((routine.events ++ added.map entryOf).map Prod.fst).Nodup) :
    (routine.addEvents added).events.Perm (routine.events ++ added.map entryOf) ∧
      Ascending (routine.addEvents added).events := by
  induction added generalizing routine with
  | nil =>
      rw [List.map_nil, List.append_nil]
      exact ⟨.refl _, ascending⟩
  | cons head rest ih =>
      have fresh : ∀ entry ∈ routine.events, entry.1 ≠ (head.1.get head.2).rank := by
        intro entry member same
        rw [List.map_append] at distinct
        exact (List.nodup_append.mp distinct).2.2 _ (List.mem_map_of_mem member) _
          List.mem_cons_self same
      have inserted : (routine.addEvent head.1 head.2).events.Perm
          (entryOf head :: routine.events) := insertRanked_perm fresh
      have moved : ((routine.addEvent head.1 head.2).events ++ rest.map entryOf).Perm
          (routine.events ++ (head :: rest).map entryOf) :=
        (inserted.append_right _).trans List.perm_middle.symm
      obtain ⟨perm, ascendingAll⟩ := ih (routine.addEvent head.1 head.2) ascending.insertRanked
        ((moved.map Prod.fst).nodup_iff.mpr distinct)
      exact ⟨perm.trans moved, ascendingAll⟩

end Routine

end Weaver
