import Weaver.Body.Basic
import Weaver.Dispatch.Arena
import Weaver.Machine.World

/-!
# Programs

A program is the classes and methods that exist for the machine.  A method is found by the slashed
name of its class, its name and the text of its signature; one that was added later wins over an
earlier one, and native methods win over bodies.
-/

namespace Weaver.Machine

/-- What a native method can change. -/
structure NativeState where
  heap : Heap
  trace : Array String

/-- A method that is not interpreted.  It gets the reference by which it was called and its
arguments, the receiver first. -/
abbrev Native := MethodRef → List Value → NativeState → Except Fault (Option Value) × NativeState

/-- How a method is found. -/
structure MethodKey where
  owner : String
  name : String
  signature : String
  deriving DecidableEq

/-- The key of a method reference. -/
def MethodKey.ofRef (method : MethodRef) : MethodKey :=
  ⟨Text.slashed method.owner, method.name, method.signature.text⟩

/-- What a method reference stands for. -/
inductive Callable where
  | body (body : Body)
  | native (native : Native)

/-- The classes and methods of a program, the latest first. -/
structure Program where
  classes : List String
  bodies : List (MethodKey × Body)
  natives : List (MethodKey × Native)

namespace Program

/-- The program without classes and methods. -/
def empty : Program := ⟨[], [], []⟩

/-- Add a class whose name may be spelled with dots. -/
def addClass (program : Program) (name : String) : Program :=
  { program with classes := Text.slashed name :: program.classes }

/-- Add an interpreted method, and its class. -/
def addBody (program : Program) (body : Body) : Program :=
  { program with
    classes := body.owner :: program.classes
    bodies := (.ofRef body.ref, body) :: program.bodies }

/-- Add a native method, and its class. -/
def addNative (program : Program) (method : MethodRef) (native : Native) : Program :=
  { program with
    classes := Text.slashed method.owner :: program.classes
    natives := (.ofRef method, native) :: program.natives }

/-- Add generated proxy types with their methods. -/
def addProxies (program : Program) (proxies : List GeneratedProxy) : Program :=
  proxies.foldl (fun program proxy => proxy.methods.foldl addBody (program.addClass proxy.name))
    program

/-- Whether a class exists. -/
def hasClass (program : Program) (name : String) : Bool := program.classes.contains name

/-- The interpreted method of a reference. -/
def body? (program : Program) (method : MethodRef) : Option Body :=
  program.bodies.lookup (.ofRef method)

/-- What a method reference stands for. -/
def resolve? (program : Program) (method : MethodRef) : Option Callable :=
  match program.natives.lookup (.ofRef method) with
  | some native => some (.native native)
  | none => (program.body? method).map .body

end Program

end Weaver.Machine
