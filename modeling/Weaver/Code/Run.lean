import Weaver.Code.Basic

/-!
# Runs of instructions

A run is a stretch of code that is inserted into a body or becomes the body of a generated method.
A `Run.Builder` emits it instruction by instruction and tracks the operand depth relative to the
depth at which the run starts; the depth at a label is that of the first branch to it, so that code
behind a return continues at the right depth.  The peak of the depth is what the run adds to the
stack that its surroundings need.  Depths are counts of 16 bits, as they are in `Body.stackDepths`.
-/

namespace Weaver

/-- A finished run: its instructions and the highest depth above its start. -/
structure Run where
  instrs : List Instr
  peak : Nat
  deriving DecidableEq

namespace Run

/-- A run under construction. -/
structure Builder where
  emitted : Array Instr
  depth : Nat
  peak : Nat
  /-- Whether control reaches the next instruction. -/
  reachable : Bool
  /-- The depth at each label that was branched to, as of the first such branch. -/
  labelDepths : List (Label × Nat)

namespace Builder

/-- The builder of a run without instructions. -/
def empty : Builder := ⟨#[], 0, 0, true, []⟩

instance : Inhabited Builder := ⟨empty⟩

/-- Take up the depth of the branches to a label that is about to be emitted. -/
def arrive (builder : Builder) (instr : Instr) : Builder :=
  match instr.definition?.bind fun label => builder.labelDepths.lookup label with
  | some depth => { builder with depth, reachable := true }
  | none => builder

/-- Remember the depth of the first branch to a label. -/
def noteTarget (labelDepths : List (Label × Nat)) (depth : Nat) : Option Label → List (Label × Nat)
  | none => labelDepths
  | some label =>
      if (labelDepths.lookup label).isSome then labelDepths else (label, depth) :: labelDepths

/-- Put an instruction behind what was emitted.  It may only pop what the run pushed. -/
def extend (builder : Builder) (instr : Instr) : Except Code.Fault Builder :=
  if builder.depth < instr.effect.pops then .error (.popsBelowRun instr builder.depth)
  else
    let depth := instr.effect.after builder.depth
    .ok
      { emitted := builder.emitted.push instr
        depth
        peak := max builder.peak depth
        reachable := builder.reachable && instr.fallsThrough
        labelDepths := noteTarget builder.labelDepths depth instr.target? }

/-- Emit one instruction; a label first takes up the depth of the branches to it. -/
def emit (builder : Builder) (instr : Instr) : Except Code.Fault Builder :=
  (builder.arrive instr).extend instr

/-- Emit a list of instructions up to the first that is refused, and keep those before it. -/
def emitAll (builder : Builder) : List Instr → Except Code.Fault Unit × Builder
  | [] => (.ok (), builder)
  | instr :: rest =>
      match builder.emit instr with
      | .error fault => (.error fault, builder)
      | .ok next => next.emitAll rest

/-- What was emitted is there, and the new instruction is behind it. -/
theorem emitted_emit {builder next : Builder} {instr : Instr}
    (h : builder.emit instr = .ok next) : next.emitted = builder.emitted.push instr := by
  unfold emit extend at h
  split at h
  · cases h
  · cases h
    simp only [arrive]
    split <;> rfl

/-- Emitting a whole list appends it. -/
theorem emitted_emitAll {builder last : Builder} {instrs : List Instr}
    (h : builder.emitAll instrs = (.ok (), last)) :
    last.emitted.toList = builder.emitted.toList ++ instrs := by
  induction instrs generalizing builder with
  | nil => simp only [emitAll, Prod.mk.injEq] at h; simp [h.2]
  | cons instr rest ih =>
      unfold emitAll at h
      split at h
      · cases h
      · next next he => rw [ih h, emitted_emit he]; simp

end Builder

/-- The run of a list of instructions. -/
def ofList (instrs : List Instr) : Except Code.Fault Run :=
  match Builder.empty.emitAll instrs with
  | (.error fault, _) => .error fault
  | (.ok (), builder) => .ok ⟨builder.emitted.toList, builder.peak⟩

/-- The instructions that discard a value, one for each of its slots. -/
def discard (kind : Kind) : List Instr := List.replicate kind.slots .pop

/-- The instructions that push the parameters of a method whose first one is in slot `first`. -/
def loadArgs (signature : Signature) (first : Nat) : List Instr :=
  (signature.parameterSlots first).map fun (slot, kind) => .load kind slot

/-- A run holds exactly the instructions it was made of. -/
theorem instrs_of_ofList {instrs : List Instr} {run : Run} (h : ofList instrs = .ok run) :
    run.instrs = instrs := by
  unfold ofList at h
  split at h
  · cases h
  · next builder he =>
    cases h
    simpa [Builder.empty] using Builder.emitted_emitAll he

end Run

end Weaver
