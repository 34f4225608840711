import Mathlib.Data.Set.Card
import Weaver.Site.Locator

/-!
# What locators denote

A locator denotes a set of sites: a base locator the sites before the instructions that it looks for,
or before one of them if it has an ordinal, and a composite locator what it makes of the sets of its
parts.  What a locator finds is this set in increasing order, each site once, also where the locators
of a host give it lists without order.
-/

namespace Weaver

namespace Site

/-- Sites are ordered by instruction; the site before an instruction precedes the one after it. -/
def Precedes (first second : Site) : Prop :=
  first.index < second.index ∨
    first.index = second.index ∧ first.placement = .before ∧ second.placement = .after

variable {first second site : Site} {sites : List Site}

/-- The index behind the instruction of a site is an index; only the site behind the instruction at
the last index is not of this kind. -/
def Counted (site : Site) : Prop :=
  site.placement = .after → site.index + 1 < indexLimit

end Site

namespace Locator

/-- The index is one that matches and, if there is an ordinal, comes behind as many others. -/
def Picked (ordinal : Option Nat) (matching : Nat → Prop) (index : Nat) : Prop :=
  matching index ∧ ∀ n ∈ ordinal, {earlier | earlier < index ∧ matching earlier}.ncard = n

/-- The instruction at an index calls a target under one of its aliases. -/
def CallsAt (instrs : List Instr) (target : Target) (index : Nat) : Prop :=
  ∃ mode method, instrs[index]? = some (.call mode method) ∧
    ∃ epoch, (epoch, method) ∈ target.aliases.toList

/-- The nearest instruction before an index that is no label pushes a constant equal to the given
one; numbers are compared as numbers. -/
def BehindConstant (instrs : List Instr) (constant : Const) (index : Nat) : Prop :=
  ∃ position value, position < index ∧ instrs[position]? = some (.const value) ∧
    value.same constant = true ∧
    ∀ between, position < between → between < index →
      ∃ label, instrs[between]? = some (.label label)

/-- The site is in the set of sites that a locator denotes. -/
inductive Denotes (signature : Signature) (code : Code) (event : Event) : Locator → Site → Prop
  | head : Denotes signature code event .head (.before 0)
  | beforeReturn {ordinal index}
      (picked : Picked ordinal (fun i => ∃ kind, code.instrs[i]? = some (.ret kind)) index) :
      Denotes signature code event (.beforeReturn ordinal) (.before index)
  | beforeCall {target ordinal index}
      (picked : Picked ordinal (CallsAt code.instrs target) index) :
      Denotes signature code event (.beforeCall target ordinal) (.before index)
  | beforeCallWithConstant {target constant ordinal index}
      (picked : Picked ordinal
        (fun i => CallsAt code.instrs target i ∧ BehindConstant code.instrs constant i) index) :
      Denotes signature code event (.beforeCallWithConstant target constant ordinal) (.before index)
  | beforeFieldAccess {owner name op ordinal index}
      (picked : Picked ordinal
        (fun i => ∃ actual type, code.instrs[i]? = some (.field actual ⟨owner, name, type⟩) ∧
          ∀ wanted ∈ op, wanted = actual) index) :
      Denotes signature code event (.beforeFieldAccess owner name op ordinal) (.before index)
  | beforeNew {className ordinal index}
      (picked : Picked ordinal (fun i => code.instrs[i]? = some (.new className)) index) :
      Denotes signature code event (.beforeNew className ordinal) (.before index)
  | beforeJump {cond ordinal index}
      (picked : Picked ordinal
        (fun i => ∃ actual target, code.instrs[i]? = some (.jump actual target) ∧
          ∀ wanted ∈ cond, wanted = actual) index) :
      Denotes signature code event (.beforeJump cond ordinal) (.before index)
  | shift {inner placement site} (found : Denotes signature code event inner site) :
      Denotes signature code event (.shift inner placement) ⟨site.index, placement⟩
  | all {inner site} (nonempty : inner ≠ [])
      (found : ∀ locator ∈ inner, Denotes signature code event locator site) :
      Denotes signature code event (.all inner) site
  | any {inner locator site} (member : locator ∈ inner)
      (found : Denotes signature code event locator site) :
      Denotes signature code event (.any inner) site
  | host {name search site} (found : site ∈ search signature code event) :
      Denotes signature code event (.host name search) site

variable {signature : Signature} {code : Code} {event : Event} {locator : Locator} {site : Site}
  {instrs : List Instr} {test : Nat → Instr → Bool} {matching : Nat → Prop} {ordinal : Option Nat}
  {index : Nat}

theorem mem_indices_iff :
    index ∈ indices test instrs ↔ ∃ instr, instrs[index]? = some instr ∧ test index instr = true := by
  simp only [indices, List.mem_filterMap, Prod.exists, List.mem_zipIdx_iff_getElem?]
  grind

/-- The excepted site: behind the instruction at the last index there is. -/
example :
    (find ⟨[], .void⟩ (.ofList []) default
        (.shift (.host "ends" fun _ _ _ => [.before 0, .before (Site.indexLimit - 1)]) .after)).map
      Site.insertionIndex = [1, 0] := by
  decide

/-- The method that is called. -/
def entering : Target where
  aliases := ⟨some ⟨"a/B", "enter", ⟨[.object "a/C"], .void⟩⟩, none, none, by decide⟩
  named := by decide

/-- Sites that are the start of the code, or the second call, or behind the call for the root. -/
def marked : Locator :=
  .all
    [.any [.head, .shift (.beforeCallWithConstant entering (.string "root") none) .after,
        .beforeCall entering (some 1)],
      .any [.shift (.beforeCall entering none) .before, .head]]

/-- Sites of a host without order, moved behind their instructions, and those before returns. -/
def moved : Locator :=
  .any [.shift (.host "fixed" fun _ _ _ => [.after 9, .before 2, .after 2]) .after,
    .beforeReturn none]

end Locator

end Weaver
