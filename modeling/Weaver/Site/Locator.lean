import Weaver.Event.Basic
import Weaver.Site.Basic
import Weaver.Target.Basic

/-!
# Locators

A locator finds the sites of an event in the code of a method.  A base locator looks for matching
instructions and gives the sites before them, or only the one before the match of a given ordinal.
Composite locators move, intersect and unite what others find, and give increasing lists.  A host
can bring locators of its own, whose lists are taken as they are.
-/

namespace Weaver

/-- A way to find sites. -/
inductive Locator where
  /-- The start of the code. -/
  | head
  | beforeReturn (ordinal : Option Nat)
  | beforeCall (target : Target) (ordinal : Option Nat)
  /-- Calls right behind a constant, labels in between apart. -/
  | beforeCallWithConstant (target : Target) (constant : Const) (ordinal : Option Nat)
  | beforeFieldAccess (owner name : String) (op : Option FieldOp) (ordinal : Option Nat)
  | beforeNew (className : String) (ordinal : Option Nat)
  | beforeJump (cond : Option Cond) (ordinal : Option Nat)
  /-- The instructions that another locator found, at one placement. -/
  | shift (inner : Locator) (placement : Placement)
  /-- What all of the locators find. -/
  | all (inner : List Locator)
  /-- What one of the locators finds. -/
  | any (inner : List Locator)
  /-- A locator of the host's own. -/
  | host (name : String) (find : Signature → Code → Event → List Site)

namespace Locator

/-- The name of a locator. -/
def name : Locator → String
  | .head => "Head"
  | .beforeReturn _ => "BeforeReturn"
  | .beforeCall .. => "BeforeCall"
  | .beforeCallWithConstant .. => "BeforeCallWithConstant"
  | .beforeFieldAccess .. => "BeforeFieldAccess"
  | .beforeNew .. => "BeforeNew"
  | .beforeJump .. => "BeforeJump"
  | .shift .. => "Shift"
  | .all _ => "And"
  | .any _ => "Or"
  | .host name _ => name

/-- The indices of the instructions that pass a test. -/
def indices (test : Nat → Instr → Bool) (instrs : List Instr) : List Nat :=
  instrs.zipIdx.filterMap fun (instr, index) => if test index instr then some index else none

/-- The sites before all matches, or before the match of an ordinal if there is one. -/
def select (ordinal : Option Nat) (found : List Nat) : List Site :=
  match ordinal with
  | none => found.map .before
  | some n => (found[n]?).toList.map .before

/-- Whether an instruction calls a target; a guarded call does not count. -/
def calls (target : Target) : Instr → Bool
  | .call _ method => target.matches? method
  | _ => false

/-- Whether the nearest instruction before an index that is no label pushes a constant. -/
def followsConstant (instrs : List Instr) (constant : Const) (index : Nat) : Bool :=
  match (instrs.take index).reverse.find? (!·.isLabel) with
  | some (.const value) => value.same constant
  | _ => false

/-- Whether an instruction accesses a field, in a given way if there is one. -/
def accesses (owner name : String) (op : Option FieldOp) : Instr → Bool
  | .field actual field =>
      field.owner = owner && field.name = name && op.all (· = actual)
  | _ => false

/-- Whether an instruction branches, on a given condition if there is one. -/
def jumps (cond : Option Cond) : Instr → Bool
  | .jump actual _ => cond.all (· = actual)
  | _ => false

/-- The sites that are in every list of a list, in order; none if there is no list. -/
def common : List (List Site) → List Site
  | [] => []
  | first :: rest => Site.normalize (first.filter fun site => rest.all (·.contains site))

mutual

/-- The sites that a locator finds for an event in the code of a method. -/
def find (signature : Signature) (code : Code) (event : Event) : Locator → List Site
  | .head => [.before 0]
  | .beforeReturn ordinal => select ordinal (indices (fun _ => Instr.isReturn) code.instrs)
  | .beforeCall target ordinal => select ordinal (indices (fun _ => calls target) code.instrs)
  | .beforeCallWithConstant target constant ordinal =>
      select ordinal
        (indices (fun index instr => calls target instr && followsConstant code.instrs constant index)
          code.instrs)
  | .beforeFieldAccess owner name op ordinal =>
      select ordinal (indices (fun _ => accesses owner name op) code.instrs)
  | .beforeNew className ordinal =>
      select ordinal (indices (fun _ instr => instr = .new className) code.instrs)
  | .beforeJump cond ordinal => select ordinal (indices (fun _ => jumps cond) code.instrs)
  | .shift inner placement =>
      Site.normalize ((find signature code event inner).map fun site => { site with placement })
  | .all inner => common (findEach signature code event inner)
  | .any inner => Site.normalize (findEach signature code event inner).flatten
  | .host _ search => search signature code event

/-- The sites that each of several locators finds. -/
def findEach (signature : Signature) (code : Code) (event : Event) :
    List Locator → List (List Site)
  | [] => []
  | locator :: rest => find signature code event locator :: findEach signature code event rest

end

end Locator

end Weaver
