/-!
# Injection sites

A site is a place before or after an instruction.  Sites are ordered by instruction and then by
placement, and `Site.normalize` turns a list of sites into the increasing list of its members.
Indices are numbers of 64 bits: past the last of them an index starts anew at zero.
-/

namespace Weaver

/-- On which side of an instruction a site is. -/
inductive Placement where
  | before
  | after
  deriving DecidableEq, Repr

/-- A place before or after the instruction at an index. -/
structure Site where
  index : Nat
  placement : Placement
  deriving DecidableEq, Repr

namespace Site

/-- The number of indices. -/
def indexLimit : Nat := UInt64.size

/-- The site before an instruction. -/
def before (index : Nat) : Site := ⟨index, .before⟩

/-- The site after an instruction. -/
def after (index : Nat) : Site := ⟨index, .after⟩

/-- The index at which code for a site is inserted.  Behind the instruction at the last index the
sum starts anew; a build that checks its sums stops there instead. -/
def insertionIndex (site : Site) : Nat :=
  match site.placement with
  | .before => site.index
  | .after => (site.index + 1) % indexLimit

/-- The text of a site. -/
def text (site : Site) : String :=
  match site.placement with
  | .before => s!"before #{site.index}"
  | .after => s!"after #{site.index}"

/-- The place of a site in the order of sites. -/
def rank (site : Site) : Nat :=
  match site.placement with
  | .before => 2 * site.index
  | .after => 2 * site.index + 1

/-- Put a site into an increasing list, unless it is there. -/
def insertSorted (site : Site) : List Site → List Site
  | [] => [site]
  | other :: rest =>
      if site.rank < other.rank then site :: other :: rest
      else if site.rank = other.rank then other :: rest
      else other :: insertSorted site rest

/-- The increasing list of the members of a list. -/
def normalize (sites : List Site) : List Site := sites.foldr insertSorted []

end Site

end Weaver
