/-!
# Naming epochs

The names of a program change over its life: from readable names to stable intermediate ones to the
short names of the shipped program.  Each of the three naming schemes is an epoch.
-/

namespace Weaver

/-- A naming scheme. -/
inductive Epoch where
  | deobfuscated
  | intermediate
  | obfuscated
  deriving DecidableEq, Repr

namespace Epoch

/-- The position of an epoch in lists of aliases. -/
def index : Epoch → Nat
  | .deobfuscated => 0
  | .intermediate => 1
  | .obfuscated => 2

/-- The name of an epoch. -/
def text : Epoch → String
  | .deobfuscated => "Deobfuscated"
  | .intermediate => "Intermediate"
  | .obfuscated => "Obfuscated"

/-- All epochs, from readable to shipped names. -/
def all : List Epoch := [.deobfuscated, .intermediate, .obfuscated]

/-- The order in which names are tried if nothing else is asked for: shipped names first. -/
def defaultOrder : List Epoch := [.obfuscated, .intermediate, .deobfuscated]

theorem mem_all (epoch : Epoch) : epoch ∈ all := by
  cases epoch <;> decide

end Epoch

end Weaver
