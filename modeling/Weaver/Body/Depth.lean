import Weaver.Body.Basic

/-!
# Operand depths

`Body.stackDepths` finds the operand depth before every instruction that control can reach.  It
follows the code from its start at depth 0, by fall-through and by branches, and visits each
instruction once.  Code is refused when it underflows the stack, branches to a label that is not
there, runs off its end or meets one instruction with two depths.

Depths are counts of 16 bits.  A sum that is too large for them starts anew at zero, and code is not
refused for it; a build that checks its sums stops there.
-/

namespace Weaver.Body

/-- The states that follow an instruction at `index` that starts at `depth`: the next instruction if
control falls through, and then the target of the branch. -/
def successors (method : MethodRef) (positions : List (Label × Nat)) (index depth : Nat)
    (instr : Instr) : Except Code.Fault (List (Nat × Nat)) :=
  if depth < instr.effect.pops then .error (.underflow index instr method)
  else
    let after := instr.effect.after depth
    let next := if instr.fallsThrough then [(index + 1, after)] else []
    match instr.target? with
    | none => .ok next
    | some label =>
        match positions.lookup label with
        | none => .error (.undefinedLabel label method)
        | some position => .ok (next ++ [(position, after)])

/-- An instruction has at most two successors. -/
theorem length_of_successors {method : MethodRef} {positions : List (Label × Nat)}
    {index depth : Nat} {instr : Instr} {states : List (Nat × Nat)}
    (h : successors method positions index depth instr = .ok states) : states.length ≤ 2 := by
  unfold successors at h
  split at h
  · cases h
  · dsimp only at h
    split at h
    · cases h; split <;> simp
    · split at h
      · cases h
      · cases h; split <;> simp

/-- Visit the states of a stack, the top one first, until none is left. -/
def explore (method : MethodRef) (positions : List (Label × Nat)) (code : Array Instr)
    (stack : List (Nat × Nat)) (depths : Vector (Option Nat) code.size) :
    Except Code.Fault (Vector (Option Nat) code.size) :=
  match stack with
  | [] => .ok depths
  | (index, depth) :: rest =>
      if inside : index < code.size then
        match unseen : depths[index] with
        | some known =>
            if known = depth then explore method positions code rest depths
            else .error (.inconsistentDepth index method known depth)
        | none =>
            match following : successors method positions index depth code[index] with
            | .error fault => .error fault
            | .ok states =>
                explore method positions code (states ++ rest) (depths.set index (some depth))
      else .error (.fallsOffEnd method)
termination_by 2 * depths.count none + stack.length
decreasing_by
  · simp
  · have short := length_of_successors following
    have seen : 0 < depths.count none :=
      Vector.count_pos_iff.2 (unseen ▸ Vector.getElem_mem inside)
    rw [Vector.count_set]
    simp only [unseen, List.length_append, List.length_cons]
    simp
    omega

/-- The operand depth before every instruction, `none` where control never comes. -/
def stackDepths (body : Body) : Except Code.Fault (List (Option Nat)) :=
  match body.code.labelPositions with
  | .error fault => .error fault
  | .ok positions =>
      if body.code.instrs.isEmpty then .ok []
      else
        (explore body.ref positions body.code.instrs.toArray [(0, 0)] (.replicate _ none)).map
          Vector.toList

/-- The larger of the depths before and after an instruction that starts at the given depth. -/
def peakAt (instr : Instr) (depth : Nat) : Nat :=
  max depth (instr.effect.after depth)

/-- The highest depth before or after an instruction that control can reach. -/
def requiredMaxStack (body : Body) : Except Code.Fault Nat :=
  body.stackDepths.map fun depths =>
    (body.code.instrs.zip depths).foldl
      (fun bound (instr, depth?) => max bound ((depth?.map (peakAt instr)).getD 0)) 0

/-- The body with the given code, and the stack and locals that the code needs. -/
def withCode (body : Body) (instrs : List Instr) : Except Code.Fault Body :=
  let coded := { body with code := .ofList instrs }
  coded.requiredMaxStack.map fun maxStack =>
    { coded with maxStack, maxLocals := max coded.maxLocals coded.requiredMaxLocals }

end Weaver.Body
