import Weaver.Target.Basic

/-!
# Registered targets

Targets are kept in the order of their first registration, each one once.
-/

namespace Weaver

/-- The targets that were registered, in order and without repetition. -/
structure TargetRegistry where
  targets : List Target
  deriving DecidableEq

namespace TargetRegistry

/-- The registry without targets. -/
def empty : TargetRegistry := ⟨[]⟩

/-- Register a target; one that is known stays where it is. -/
def register (registry : TargetRegistry) (target : Target) : TargetRegistry :=
  if target ∈ registry.targets then registry else ⟨registry.targets ++ [target]⟩

/-- The place of a target in the order of registration. -/
def position? (registry : TargetRegistry) (target : Target) : Option Nat :=
  registry.targets.findIdx? (· = target)

/-- The targets that name a body. -/
def resolve (registry : TargetRegistry) (order : List Epoch) (body : Body) : List Target :=
  registry.targets.filter (·.names order body)

/-- The targets that name none of the given bodies. -/
def unresolved (registry : TargetRegistry) (order : List Epoch) (bodies : List Body) :
    List Target :=
  registry.targets.filter fun target => !bodies.any (target.names order)

/-- A registered target is in the registry. -/
theorem mem_register (registry : TargetRegistry) (target : Target) :
    target ∈ (registry.register target).targets := by
  unfold register
  split <;> simp_all

/-- Registering a target twice is registering it once. -/
@[simp]
theorem register_register (registry : TargetRegistry) (target : Target) :
    (registry.register target).register target = registry.register target := by
  rw [register, if_pos (mem_register registry target)]

end TargetRegistry

end Weaver
