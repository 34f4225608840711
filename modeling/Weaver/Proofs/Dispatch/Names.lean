import Mathlib.Data.Nat.Digits.Defs
import Weaver.Dispatch.Arena

/-!
# Names of routines and of their types

A number is padded with zeros to five digits and takes more where it has more; either way the name
tells the number.  So no two routines have the same name, and no two types.
-/

namespace Weaver

theorem Text.slashed_eq {name : String} (noDot : '.' ∉ name.toList) : slashed name = name := by
  apply String.toList_inj.mp
  rw [slashed, String.toList_map]
  refine (List.map_congr_left ?_).trans (List.map_id _)
  intro c member
  apply if_neg
  rintro rfl
  exact noDot member

namespace Arena

theorem ofDigitChars_padded (width number : Nat) :
    Nat.ofDigitChars 10 (padded width number).toList 0 = number := by
  have zeros : ∀ count, Nat.ofDigitChars 10 (List.replicate count '0') 0 = 0 := by
    intro count
    induction count with
    | zero => rfl
    | succ count ih => rw [List.replicate_succ, Nat.ofDigitChars_cons]; exact ih
  rw [padded, String.toList_append, String.toList_ofList, Nat.ofDigitChars_append, zeros,
    Nat.toString_eq_repr, Nat.repr_eq_ofList_toDigits, String.toList_ofList]
  exact Nat.ofDigitChars_ten_toDigits

theorem padded_inj {width first second : Nat} (same : padded width first = padded width second) :
    first = second := by
  rw [← ofDigitChars_padded width first, same, ofDigitChars_padded]

/-- The characters that the name of a type has behind that of the first type. -/
def suffix (position : Nat) : List Char :=
  if position = 0 then [] else '$' :: Nat.toDigits 10 position

theorem toList_typeName (arena : Arena) (position : Nat) :
    (arena.typeName position).toList = arena.className.toList ++ suffix position := by
  unfold typeName suffix
  split
  · exact (List.append_nil _).symm
  · rw [String.toList_append, String.toList_append, Nat.toString_eq_repr,
      Nat.repr_eq_ofList_toDigits, String.toList_ofList, List.append_assoc]
    rfl

theorem typeName_inj (arena : Arena) {first second : Nat}
    (same : arena.typeName first = arena.typeName second) : first = second := by
  have suffixes : suffix first = suffix second := by
    have lists := congrArg String.toList same
    rw [toList_typeName, toList_typeName] at lists
    exact List.append_cancel_left lists
  unfold suffix at suffixes
  split at suffixes <;> split at suffixes
  · omega
  · cases suffixes
  · cases suffixes
  · rw [← Nat.ofDigitChars_ten_toDigits (n := first)]
    rw [(List.cons.inj suffixes).2, Nat.ofDigitChars_ten_toDigits]

theorem dot_notMem_typeName {arena : Arena} (noDot : '.' ∉ arena.className.toList)
    (position : Nat) : '.' ∉ (arena.typeName position).toList := by
  rw [toList_typeName]
  intro member
  rcases List.mem_append.mp member with first | behind
  · exact noDot first
  · unfold suffix at behind
    split at behind
    · cases behind
    · rcases List.mem_cons.mp behind with dollar | digit
      · cases dollar
      · have isDigit := Nat.isDigit_of_mem_toDigits (by decide) (by decide) digit
        cases isDigit

end Arena

end Weaver
