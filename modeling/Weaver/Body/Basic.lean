import Weaver.Code.Run

/-!
# Method bodies

A body is a method with its code and the stack depth and local slots it declares.  An instance
method has its receiver in slot 0 and its parameters behind it; a static one has its parameters from
slot 0 on.
-/

namespace Weaver

/-- The access flags of a method, as bits. -/
structure Access where
  bits : UInt16
  deriving DecidableEq, Repr, Inhabited

/-- Whether the method has no receiver. -/
def Access.isStatic (access : Access) : Bool := access.bits &&& 8 != 0

/-- The flags of generated methods: public, static and synthetic. -/
def Access.generated : Access := ⟨0x1009⟩

/-- The last slot, plus one, of the local that an instruction loads or stores. -/
def Instr.localBound : Instr → Nat
  | .load kind index | .store kind index => addSlots index kind.slots
  | _ => 0

/-- A method with its code. -/
structure Body where
  owner : String
  name : String
  signature : Signature
  access : Access
  code : Code
  maxStack : Nat
  maxLocals : Nat
  deriving DecidableEq, Inhabited

namespace Body

/-- Whether the method has no receiver. -/
def isStatic (body : Body) : Bool := body.access.isStatic

/-- The slot of the first parameter, which is the number of slots of the receiver. -/
def firstArgSlot (body : Body) : Nat := (!body.isStatic).toNat

/-- The slots of the receiver and the parameters. -/
def argumentSlots (body : Body) : Nat := addSlots body.firstArgSlot body.signature.argsSize

/-- A body without code, whose locals are its receiver and parameters. -/
def ofNames (owner name : String) (signature : Signature) (access : Access) : Body :=
  let body : Body := ⟨Text.slashed owner, name, signature, access, .empty, 0, 0⟩
  { body with maxLocals := body.argumentSlots }

/-- The reference by which the method is called. -/
def ref (body : Body) : MethodRef := ⟨body.owner, body.name, body.signature⟩

/-- The text of a body is that of its reference. -/
def text (body : Body) : String := body.ref.text

/-- The local slot and the kind of every parameter. -/
def parameterSlots (body : Body) : List (Nat × Kind) :=
  body.signature.parameterSlots body.firstArgSlot

/-- The local slots that cover the receiver, the parameters and every load and store. -/
def requiredMaxLocals (body : Body) : Nat :=
  body.code.instrs.foldl (fun bound instr => max bound instr.localBound) body.argumentSlots

/-- Check that no label is defined twice and that every branch has a label to go to. -/
def validate (body : Body) : Except Code.Fault Unit :=
  match body.code.labelPositions with
  | .error fault => .error fault
  | .ok positions =>
      body.code.instrs.forM fun instr =>
        match instr.target? with
        | none => .ok ()
        | some label =>
            if (positions.lookup label).isSome then .ok ()
            else .error (.undefinedLabel label body.ref)

end Body

end Weaver
