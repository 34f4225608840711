import Mathlib.Data.List.DropRight
import Mathlib.Data.List.Forall2
import Weaver.Text.Name

/-!
# Blank names and names without case

A text is blank if nothing is left of it without the white space at its ends.  Two names have the same
key if they differ in the case of ASCII letters at most; all other letters are told apart by their
case.  White space is no letter, so names of one key are blank together.
-/

namespace Weaver.Text

/-- A text without the white space at its ends. -/
def trimmed (text : String) : String :=
  String.ofList ((text.toList.dropWhile isBlankChar).rdropWhile isBlankChar)

theorem trimmed_eq_empty_iff {text : String} : trimmed text = "" ↔ isBlank text = true := by
  have nothingLeft : (text.toList.dropWhile isBlankChar).rdropWhile isBlankChar = [] ↔
      ∀ c ∈ text.toList, isBlankChar c = true := by
    rw [List.rdropWhile_eq_nil_iff]
    constructor
    · intro allBlank c member
      rw [← List.takeWhile_append_dropWhile (p := isBlankChar) (l := text.toList)] at member
      rcases List.mem_append.mp member with inFront | behind
      · exact List.mem_takeWhile_imp inFront
      · exact allBlank c behind
    · intro allBlank c member
      exact allBlank c ((List.dropWhile_suffix _).mem member)
  rw [trimmed, ← String.ofList_nil, String.ofList_inj, nothingLeft, isBlank, List.all_eq_true]

theorem trimmed_ne_empty_iff {text : String} : trimmed text ≠ "" ↔ ¬ isBlank text = true :=
  not_congr trimmed_eq_empty_iff

/-- Two characters that are equal but for the case of an ASCII letter. -/
def SameLetter (first second : Char) : Prop :=
  first = second ∨ first.isUpper = true ∧ second = first.toLower ∨
    second.isUpper = true ∧ first = second.toLower

/-- Two names that are equal but for the case of their ASCII letters. -/
def SameName (first second : String) : Prop :=
  List.Forall₂ SameLetter first.toList second.toList

theorem isUpper_iff {c : Char} : c.isUpper = true ↔ 65 ≤ c.toNat ∧ c.toNat ≤ 90 :=
  decide_eq_true_iff.trans (and_congr UInt32.le_iff_toNat_le UInt32.le_iff_toNat_le)

theorem toLower_of_not_isUpper {c : Char} (small : ¬ c.isUpper = true) : c.toLower = c :=
  dif_neg fun capital => small (decide_eq_true capital)

theorem val_toLower {c : Char} (capital : c.isUpper = true) :
    c.toLower.val = c.val + ('a'.val - 'A'.val) :=
  congrArg Char.val (dif_pos (of_decide_eq_true capital))

theorem toNat_toLower {c : Char} (capital : c.isUpper = true) :
    c.toLower.toNat = c.toNat + 32 := by
  have upper : c.val.toNat ≤ 90 := (isUpper_iff.mp capital).2
  change c.toLower.val.toNat = c.val.toNat + 32
  rw [val_toLower capital, UInt32.toNat_add, Nat.mod_eq_of_lt]
  · rfl
  · change c.val.toNat + 32 < 2 ^ 32
    omega

theorem not_isUpper_toLower (c : Char) : ¬ c.toLower.isUpper = true := by
  by_cases capital : c.isUpper = true
  · have moved := toNat_toLower capital
    have lower := (isUpper_iff.mp capital).1
    intro still
    have upper := (isUpper_iff.mp still).2
    omega
  · rwa [toLower_of_not_isUpper capital]

theorem toLower_injOn_isUpper {first second : Char} (firstUpper : first.isUpper = true)
    (secondUpper : second.isUpper = true) (equal : first.toLower = second.toLower) :
    first = second := by
  have vals := congrArg Char.val equal
  rw [val_toLower firstUpper, val_toLower secondUpper] at vals
  exact Char.ext ((UInt32.add_left_inj _).mp vals)

theorem toLower_eq_toLower_iff {first second : Char} :
    first.toLower = second.toLower ↔ SameLetter first second := by
  constructor
  · intro equal
    by_cases firstUpper : first.isUpper = true <;> by_cases secondUpper : second.isUpper = true
    · exact .inl (toLower_injOn_isUpper firstUpper secondUpper equal)
    · rw [toLower_of_not_isUpper secondUpper] at equal
      exact .inr (.inl ⟨firstUpper, equal.symm⟩)
    · rw [toLower_of_not_isUpper firstUpper] at equal
      exact .inr (.inr ⟨secondUpper, equal⟩)
    · rw [toLower_of_not_isUpper firstUpper,
        toLower_of_not_isUpper secondUpper] at equal
      exact .inl equal
  · rintro (rfl | ⟨-, rfl⟩ | ⟨-, rfl⟩)
    · rfl
    · exact (toLower_of_not_isUpper (not_isUpper_toLower first)).symm
    · exact toLower_of_not_isUpper (not_isUpper_toLower second)

/-- White space is no letter, so the case of letters does not make a character blank. -/
theorem SameLetter.isBlankChar_eq {first second : Char} (same : SameLetter first second) :
    isBlankChar first = isBlankChar second := by
  have upper : ∀ c : Char, c.isUpper = true →
      isBlankChar c = false ∧ isBlankChar c.toLower = false := by
    intro c capital
    obtain ⟨fromA, toZ⟩ := isUpper_iff.mp capital
    have small := toNat_toLower capital
    have notBlank : ∀ other : Char, 65 ≤ other.toNat → other.toNat ≤ 122 →
        isBlankChar other = false := by
      intro other above below
      simp [isBlankChar]
      omega
    exact ⟨notBlank c fromA (by omega), notBlank c.toLower (by omega) (by omega)⟩
  rcases same with rfl | ⟨capital, rfl⟩ | ⟨capital, rfl⟩
  · rfl
  · rw [(upper first capital).1, (upper first capital).2]
  · rw [(upper second capital).1, (upper second capital).2]

theorem SameName.isBlank_eq {first second : String} (same : SameName first second) :
    isBlank first = isBlank second := by
  unfold isBlank
  unfold SameName at same
  generalize first.toList = firstLetters, second.toList = secondLetters at *
  induction same with
  | nil => rfl
  | cons letter _ ih => rw [List.all_cons, List.all_cons, letter.isBlankChar_eq, ih]

/-- The key under which names are compared tells exactly those apart that differ in more than the
case of letters. -/
theorem folded_eq_folded_iff {first second : String} :
    folded first = folded second ↔ SameName first second := by
  rw [← String.toList_inj, folded, folded, String.toList_map, String.toList_map,
    ← List.forall₂_eq_eq_eq, List.forall₂_map_left_iff, List.forall₂_map_right_iff]
  simp only [toLower_eq_toLower_iff]
  rfl

end Weaver.Text
