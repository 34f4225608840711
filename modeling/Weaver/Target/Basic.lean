import Weaver.Body.Basic
import Weaver.Descriptor.Cursor
import Weaver.Error

/-!
# Targets

A target names one method across naming epochs.  It is a table with at most one alias for each epoch
and at least one alias in all; an alias is a method reference whose signature was read from a
descriptor.  A body is named by a target when one of the aliases in question is its reference.
-/

namespace Weaver

/-- The aliases of a method, at most one for each epoch. -/
structure Aliases where
  deobfuscated : Option MethodRef
  intermediate : Option MethodRef
  obfuscated : Option MethodRef
  /-- No alias has more parameters than a descriptor can. -/
  limited : ∀ method ∈ deobfuscated.toList ++ intermediate.toList ++ obfuscated.toList,
    method.signature.totalSlots ≤ Signature.maxParameterSlots
  deriving DecidableEq

namespace Aliases

/-- The table without aliases. -/
def none : Aliases := ⟨.none, .none, .none, nofun⟩

/-- The alias of an epoch. -/
def get? (aliases : Aliases) : Epoch → Option MethodRef
  | .deobfuscated => aliases.deobfuscated
  | .intermediate => aliases.intermediate
  | .obfuscated => aliases.obfuscated

theorem totalSlots_le_of_get? {aliases : Aliases} {epoch : Epoch} {method : MethodRef}
    (h : aliases.get? epoch = some method) :
    method.signature.totalSlots ≤ Signature.maxParameterSlots := by
  apply aliases.limited
  cases epoch <;> simp_all [get?]

/-- The table with another alias for an epoch. -/
def set (aliases : Aliases) (epoch : Epoch) (method : MethodRef)
    (limited : method.signature.totalSlots ≤ Signature.maxParameterSlots) : Aliases where
  deobfuscated := if epoch = .deobfuscated then method else aliases.deobfuscated
  intermediate := if epoch = .intermediate then method else aliases.intermediate
  obfuscated := if epoch = .obfuscated then method else aliases.obfuscated
  limited := by
    have kept := aliases.limited
    simp only [List.mem_append, Option.mem_toList] at kept ⊢
    intro named member
    cases epoch <;> grind

/-- The aliases there are, from readable to shipped names. -/
def toList (aliases : Aliases) : List (Epoch × MethodRef) :=
  Epoch.all.filterMap fun epoch => (aliases.get? epoch).map (epoch, ·)

/-- Set the alias of an epoch from its texts.  Neither the owner nor the name may be empty. -/
def define (aliases : Aliases) (epoch : Epoch) (owner name descriptor : String) :
    Except Error Aliases :=
  if owner.isEmpty || name.isEmpty then .error (.configuration (.unnamedAlias epoch))
  else
    match read : Signature.parse descriptor with
    | .error fault => .error (.malformedDescriptor fault)
    | .ok signature =>
        .ok (aliases.set epoch (.ofNames owner name signature)
          (Signature.totalSlots_le_of_parse read))

@[simp]
theorem get?_set (aliases : Aliases) (epoch other : Epoch) (method : MethodRef)
    (limited : method.signature.totalSlots ≤ Signature.maxParameterSlots) :
    (aliases.set epoch method limited).get? other =
      if other = epoch then some method else aliases.get? other := by
  cases epoch <;> cases other <;> simp [set, get?]

end Aliases

/-- A method that is known under at least one alias. -/
structure Target where
  aliases : Aliases
  named : aliases.toList ≠ []
  deriving DecidableEq

namespace Target

/-- The target of a table of aliases, which must hold one. -/
def ofAliases (aliases : Aliases) : Except Error Target :=
  if named : aliases.toList ≠ [] then .ok ⟨aliases, named⟩
  else .error (.configuration .noAlias)

/-- The target of a single readable name. -/
def ofName (owner name descriptor : String) : Except Error Target :=
  match Aliases.none.define .deobfuscated owner name descriptor with
  | .error error => .error error
  | .ok aliases => ofAliases aliases

/-- The first alias, by which the target is shown. -/
def primary (target : Target) : MethodRef := (target.aliases.toList.head target.named).2

/-- The text of a target is that of its first alias. -/
def text (target : Target) : String := target.primary.text

/-- The first epoch of an order under which the target names a body. -/
def resolve? (target : Target) (order : List Epoch) (body : Body) : Option Epoch :=
  order.find? fun epoch => target.aliases.get? epoch == some body.ref

/-- Whether the target names a body under one of the epochs of an order. -/
def names (target : Target) (order : List Epoch) (body : Body) : Bool :=
  (target.resolve? order body).isSome

/-- A method that a target names has no more parameters than a descriptor can. -/
theorem totalSlots_le_of_names {target : Target} {order : List Epoch} {body : Body}
    (h : target.names order body = true) :
    body.signature.totalSlots ≤ Signature.maxParameterSlots := by
  obtain ⟨epoch, found⟩ := Option.isSome_iff_exists.mp h
  rw [resolve?] at found
  have named := List.find?_some found
  exact Aliases.totalSlots_le_of_get? (beq_iff_eq.mp named)

/-- Whether one of the aliases is the given reference. -/
def matches? (target : Target) (method : MethodRef) : Bool :=
  target.aliases.toList.any fun entry => entry.2 = method

/-- Whether one of the aliases is declared by the given class. -/
def hasOwner (target : Target) (owner : String) : Bool :=
  target.aliases.toList.any fun entry => entry.2.owner = owner

end Target

end Weaver
