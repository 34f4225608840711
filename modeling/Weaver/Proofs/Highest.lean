import Mathlib.Order.Lattice
import Mathlib.Order.MinMax

/-!
# The highest of several numbers

The bounds of a body are found by folding `max` over its code.  Such a fold is at most a number
exactly if all that it compares are, and it is one of them.
-/

namespace Weaver

variable {α : Type} (measure : α → Nat)

/-- A fold of `max` is bounded exactly if all that it compares are. -/
theorem foldl_max_le_iff (items : List α) (least bound : Nat) :
    items.foldl (fun highest item => max highest (measure item)) least ≤ bound ↔
      least ≤ bound ∧ ∀ item ∈ items, measure item ≤ bound := by
  induction items generalizing least with
  | nil => simp
  | cons item rest ih =>
      rw [List.foldl_cons, ih, max_le_iff, and_assoc, List.forall_mem_cons]

theorem le_foldl_max (items : List α) (least : Nat) :
    least ≤ items.foldl (fun highest item => max highest (measure item)) least :=
  ((foldl_max_le_iff measure items least _).mp (Nat.le_refl _)).1

theorem le_foldl_max_of_mem {items : List α} {item : α} (member : item ∈ items) (least : Nat) :
    measure item ≤ items.foldl (fun highest item => max highest (measure item)) least :=
  ((foldl_max_le_iff measure items least _).mp (Nat.le_refl _)).2 item member

/-- A fold of `max` is its start or is attained in the list. -/
theorem foldl_max_attained (items : List α) (least : Nat) :
    items.foldl (fun highest item => max highest (measure item)) least = least ∨
      ∃ item ∈ items,
        items.foldl (fun highest item => max highest (measure item)) least = measure item := by
  induction items generalizing least with
  | nil => exact .inl rfl
  | cons item rest ih =>
      rcases ih (max least (measure item)) with atStart | ⟨other, member, found⟩
      · rcases max_choice least (measure item) with first | first
        · exact .inl (atStart.trans first)
        · exact .inr ⟨item, List.mem_cons_self, atStart.trans first⟩
      · exact .inr ⟨other, List.mem_cons_of_mem _ member, found⟩

end Weaver
