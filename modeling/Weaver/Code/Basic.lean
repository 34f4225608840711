import Weaver.Code.Fault

/-!
# Instruction sequences

`Code` is a list of instructions with an allocator of labels.  The allocator stays above every label
that the sequence defines or branches to and above every label it handed out, so a new label is
always fresh; it keeps its place when the sequence is replaced.
-/

namespace Weaver

/-- The least allocator position that is above the label an instruction defines or branches to. -/
def Instr.labelBound (instr : Instr) : Nat :=
  match instr.definition? <|> instr.target? with
  | some used => used.id.toNat + 1
  | none => 0

namespace Code

/-- The least allocator position at or above `bound` that is above all labels of the list. -/
def boundFrom (bound : Nat) (instrs : List Instr) : Nat :=
  instrs.foldl (fun bound instr => max bound instr.labelBound) bound

@[simp]
theorem boundFrom_nil (bound : Nat) : boundFrom bound [] = bound := rfl

@[simp]
theorem boundFrom_cons (bound : Nat) (instr : Instr) (rest : List Instr) :
    boundFrom bound (instr :: rest) = boundFrom (max bound instr.labelBound) rest := rfl

/-- The allocator never moves back. -/
theorem le_boundFrom (bound : Nat) (instrs : List Instr) : bound ≤ boundFrom bound instrs := by
  induction instrs generalizing bound with
  | nil => exact Nat.le_refl _
  | cons instr rest ih => exact Nat.le_trans (Nat.le_max_left _ _) (ih _)

/-- The allocator moves above all labels of the list. -/
theorem labelBound_le_boundFrom (bound : Nat) {instrs : List Instr} {instr : Instr}
    (member : instr ∈ instrs) : instr.labelBound ≤ boundFrom bound instrs := by
  induction instrs generalizing bound with
  | nil => cases member
  | cons first rest ih =>
      rcases List.mem_cons.mp member with rfl | later
      · exact Nat.le_trans (Nat.le_max_right _ _) (le_boundFrom _ _)
      · exact ih _ later

end Code

/-- A sequence of instructions and the id of the next new label, which is above all labels in use. -/
structure Code where
  instrs : List Instr
  nextLabel : Nat
  labels_below : ∀ instr ∈ instrs, instr.labelBound ≤ nextLabel
  deriving DecidableEq

namespace Code

/-- The sequence without instructions. -/
def empty : Code := ⟨[], 0, fun _ member => nomatch member⟩

instance : Inhabited Code := ⟨empty⟩

/-- Put one instruction at the end. -/
def push (code : Code) (instr : Instr) : Code where
  instrs := code.instrs ++ [instr]
  nextLabel := max code.nextLabel instr.labelBound
  labels_below := by
    intro used member
    rcases List.mem_append.mp member with old | new
    · exact Nat.le_trans (code.labels_below used old) (Nat.le_max_left _ _)
    · cases List.mem_singleton.mp new
      exact Nat.le_max_right _ _

/-- Put other instructions in the place of all there are. -/
def replace (code : Code) (instrs : List Instr) : Code :=
  ⟨instrs, boundFrom code.nextLabel instrs, fun _ member => labelBound_le_boundFrom _ member⟩

/-- The sequence of a list of instructions. -/
def ofList (instrs : List Instr) : Code := empty.replace instrs

/-- The number of instructions. -/
def length (code : Code) : Nat := code.instrs.length

/-- Put a run of instructions before the one at `index`, or at the end if `index` is the length. -/
def insert (code : Code) (index : Nat) (run : List Instr) : Except Fault Unit × Code :=
  if code.length < index then (.error (.insertionOutOfBounds index code.length), code)
  else
    (.ok (),
      { instrs := code.instrs.take index ++ run ++ code.instrs.drop index
        nextLabel := boundFrom code.nextLabel run
        labels_below := by
          intro used member
          have kept : used ∈ code.instrs → used.labelBound ≤ boundFrom code.nextLabel run :=
            fun old => Nat.le_trans (code.labels_below used old) (le_boundFrom _ _)
          rcases List.mem_append.mp member with front | behind
          · rcases List.mem_append.mp front with before | inserted
            · exact kept (List.mem_of_mem_take before)
            · exact labelBound_le_boundFrom _ inserted
          · exact kept (List.mem_of_mem_drop behind) })

/-- Hand out a label that the sequence does not use. -/
def newLabel (code : Code) : Except Fault Label × Code :=
  if code.nextLabel < UInt32.size then
    (.ok ⟨UInt32.ofNat code.nextLabel⟩,
      { code with
        nextLabel := code.nextLabel + 1
        labels_below := fun used member =>
          Nat.le_succ_of_le (code.labels_below used member) })
  else (.error .labelsExhausted, code)

/-- The first position at which a label is defined. -/
def labelPosition? (code : Code) (label : Label) : Option Nat :=
  code.instrs.findIdx? (· = .label label)

/-- The positions of the labels of a list that starts at `index`, `seen` being those before it. -/
def collectLabels : List Instr → Nat → List (Label × Nat) → Except Fault (List (Label × Nat))
  | [], _, seen => .ok seen
  | .label label :: rest, index, seen =>
      match seen.lookup label with
      | some _ => .error (.duplicateLabel label)
      | none => collectLabels rest (index + 1) ((label, index) :: seen)
  | _ :: rest, index, seen => collectLabels rest (index + 1) seen

/-- The position of every label, the last one first; no label may be defined twice. -/
def labelPositions (code : Code) : Except Fault (List (Label × Nat)) :=
  collectLabels code.instrs 0 []

end Code

end Weaver
