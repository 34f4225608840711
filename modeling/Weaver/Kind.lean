/-!
# Computational kinds and slots

Every value on the operand stack or in a local slot is of one of five kinds.  Long and double values
take two slots, all others one.  Slot counts and slot numbers are of 16 bits: those of locals and
arguments stop at `slotLimit`, and depths of the operand stack wrap above it.
-/

namespace Weaver

/-- The computational kind of a value.  Booleans and all integers of up to 32 bits are `int`. -/
inductive Kind where
  | int
  | long
  | float
  | double
  | reference
  deriving DecidableEq, Repr, Inhabited

/-- The letter that stands for the kind in a mnemonic. -/
def Kind.letter : Kind → String
  | .int => "i"
  | .long => "l"
  | .float => "f"
  | .double => "d"
  | .reference => "a"

/-- The number of slots a value of the kind takes. -/
def Kind.slots : Kind → Nat
  | .long | .double => 2
  | .int | .float | .reference => 1

theorem Kind.slots_pos (kind : Kind) : 0 < kind.slots := by
  cases kind <;> decide

theorem Kind.slots_le_two (kind : Kind) : kind.slots ≤ 2 := by
  cases kind <;> decide

/-- The largest slot count or slot number. -/
def slotLimit : Nat := 65535

/-- Addition of slot counts that stops at `slotLimit`. -/
def addSlots (a b : Nat) : Nat := min (a + b) slotLimit

theorem addSlots_le (a b : Nat) : addSlots a b ≤ slotLimit := Nat.min_le_right _ _

/-- Within the limit the addition is exact. -/
theorem addSlots_of_le {a b : Nat} (h : a + b ≤ slotLimit) : addSlots a b = a + b :=
  Nat.min_eq_left h

/-- A depth of the operand stack as it is counted.  A sum above `slotLimit` wraps; a build that checks
its additions stops there instead. -/
def wrapSlots (slots : Nat) : Nat := slots % (slotLimit + 1)

theorem wrapSlots_le (slots : Nat) : wrapSlots slots ≤ slotLimit :=
  Nat.le_of_lt_succ (Nat.mod_lt _ (Nat.succ_pos _))

/-- Within the limit the count is exact. -/
theorem wrapSlots_of_le {slots : Nat} (h : slots ≤ slotLimit) : wrapSlots slots = slots :=
  Nat.mod_eq_of_lt (Nat.lt_succ_of_le h)

/-- Slots that are added to a count wrap as they do behind all others. -/
theorem wrapSlots_add (a b : Nat) : wrapSlots (wrapSlots a + b) = wrapSlots (a + b) :=
  Nat.mod_add_mod _ _ _

end Weaver
