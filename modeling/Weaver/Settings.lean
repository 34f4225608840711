import Weaver.Error

/-!
# Settings

What a host can choose: how proxy types and dispatch routines are named, how many routines a type
holds, in which order naming epochs are tried, and whether finds of locators are reported.
-/

namespace Weaver

/-- The settings of an engine. -/
structure Settings where
  proxyClass : String
  dispatchPrefix : String
  maxProxyMethods : Nat
  epochOrder : List Epoch
  verbose : Bool
  deriving DecidableEq

namespace Settings

/-- The settings of a host that chooses nothing. -/
def standard : Settings :=
  { proxyClass := "eventscope/runtime/EventProxy"
    dispatchPrefix := "$event"
    maxProxyMethods := 1000
    epochOrder := Epoch.defaultOrder
    verbose := false }

/-- Check that names are not empty, that a type can hold a routine and that an epoch is tried. -/
def validate (settings : Settings) : Except Error Unit :=
  if settings.proxyClass.isEmpty then .error (.configuration .noProxyClass)
  else if settings.dispatchPrefix.isEmpty then .error (.configuration .noDispatchPrefix)
  else if settings.maxProxyMethods = 0 then .error (.configuration .noProxyCapacity)
  else if settings.epochOrder.isEmpty then .error (.configuration .noEpoch)
  else .ok ()

end Settings

end Weaver
