import Weaver.Diagnostic
import Weaver.Machine.Heap

/-!
# The world of the machine

The state that all frames share: the heap, the static fields, what was traced and reported, and the
number of instructions so far.
-/

namespace Weaver.Machine

/-- The bounds of an execution. -/
structure Limits where
  /-- The number of instructions, of 64 bits; zero is no limit of its own. -/
  instructions : Nat
  /-- The number of interpreted methods that are open at a time. -/
  callDepth : Nat
  /-- The number of objects; zero is no limit of its own. -/
  heapObjects : Nat
  deriving DecidableEq, Repr

/-- The bounds of a host that chooses none. -/
def Limits.standard : Limits := ⟨1000000, 256, 100000⟩

/-- The number of instructions that an execution may count.  The counter has 64 bits, so that no limit
is larger than `2 ^ 64 - 1`.  With that limit, as without one, an execution is followed to the largest
count and no further: there the counter would start anew. -/
def Limits.budget (limits : Limits) : Nat :=
  if limits.instructions = 0 then UInt64.size - 1 else limits.instructions

theorem Limits.budget_of_pos {limits : Limits} (h : 0 < limits.instructions) :
    limits.budget = limits.instructions := by
  unfold budget
  split <;> omega

/-- The state that all frames share. -/
structure World where
  heap : Heap
  /-- The static fields, by class and name. -/
  statics : Fields (String × String)
  trace : Array String
  log : Log
  /-- The number of instructions that were begun, refused ones included. -/
  executed : Nat

namespace World

/-- The world before any execution, with the log that reports go to. -/
def fresh (limits : Limits) (log : Log) : World := ⟨.empty limits.heapObjects, [], #[], log, 0⟩

/-- Allocate an object.  The world is taken apart first, so that the heap is not copied. -/
def alloc (world : World) (object : HeapObject) : Except Fault Value × World :=
  let ⟨heap, statics, trace, log, executed⟩ := world
  match heap.alloc object with
  | .error fault => (.error fault, ⟨heap, statics, trace, log, executed⟩)
  | .ok (value, heap) => (.ok value, ⟨heap, statics, trace, log, executed⟩)

/-- Allocate several strings, up to the first that does not fit. -/
def allocStrings (world : World) : List String → Except Fault (List Value) × World
  | [] => (.ok [], world)
  | text :: rest =>
      match world.alloc (.string text) with
      | (.error fault, world) => (.error fault, world)
      | (.ok value, world) =>
          match world.allocStrings rest with
          | (.error fault, world) => (.error fault, world)
          | (.ok values, world) => (.ok (value :: values), world)

end World

end Weaver.Machine
