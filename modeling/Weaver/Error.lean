import Weaver.Descriptor.Fault
import Weaver.Machine.Fault
import Weaver.Target.Epoch

/-!
# Errors

`Error` gathers the causes for which an operation of the library fails.  Each cause has one wording,
`Error.message`; `Error.isConfiguration` picks out the errors that come from contradictory
registrations and that no other input can mend.
-/

namespace Weaver

/-- What becomes of a redirected body: handlers take its place, or run before it. -/
inductive RedirectKind where
  | replace
  | prepend
  deriving DecidableEq, Repr

/-- The name of a kind. -/
def RedirectKind.text : RedirectKind → String
  | .replace => "Replace"
  | .prepend => "Prepend"

/-- Why a registration or a setting was refused. -/
inductive ConfigurationFault where
  | unnamedAlias (epoch : Epoch)
  | noAlias
  | blankEventName
  | listenerForm (text : String)
  | mixedRedirect (target : String) (known requested : RedirectKind) (handler : String)
  | noProxyClass
  | noDispatchPrefix
  | noProxyCapacity
  | noEpoch
  deriving DecidableEq

/-- The wording of a configuration fault. -/
def ConfigurationFault.message : ConfigurationFault → String
  | .unnamedAlias epoch => s!"Alias for epoch {epoch.text} needs an owner and a name"
  | .noAlias => "A method descriptor needs at least one alias"
  | .blankEventName => "Event names must not be empty"
  | .listenerForm text => s!"Listener '{text}' must have the form owner.method"
  | .mixedRedirect target known requested handler =>
      s!"Redirect of {target} is registered as {known.text}, " ++
        s!"cannot add {requested.text} handler {handler}"
  | .noProxyClass => "proxy_class_name must not be empty"
  | .noDispatchPrefix => "dispatch_prefix must not be empty"
  | .noProxyCapacity => "max_proxy_methods must be at least 1"
  | .noEpoch => "epoch_order must name at least one epoch"

/-- Why code could not be put into a body. -/
inductive SynthesisFault where
  | analysis (cause : Code.Fault)
  | unreachableSite (index : Nat)
  | localsExhausted
  | stackExhausted
  /-- A label, the run or its insertion was refused. -/
  | run (cause : Code.Fault)
  | inconsistent (cause : Code.Fault)
  | understatedStack (declared required : Nat)
  | redirect (cause : Code.Fault)
  | dispatch (cause : Code.Fault)
  deriving DecidableEq

/-- The wording of malformed code or of a malformed descriptor, with its heading. -/
def malformedText (message : String) : String := "Malformed - " ++ message

/-- The wording of a synthesis fault. -/
def SynthesisFault.message : SynthesisFault → String
  | .analysis cause => "stack analysis failed: " ++ malformedText cause.message
  | .unreachableSite index => s!"site {index} is unreachable"
  | .localsExhausted => "local slots exhausted"
  | .stackExhausted => s!"operand stack exceeds {slotLimit} slots"
  | .run cause => malformedText cause.message
  | .inconsistent cause => "rewritten body is inconsistent: " ++ malformedText cause.message
  | .understatedStack declared required =>
      s!"max_stack {declared} is below the required {required}"
  | .redirect cause => "redirect: " ++ malformedText cause.message
  | .dispatch cause => "dispatch body could not be built: " ++ malformedText cause.message

/-- Why an operation failed. -/
inductive Error where
  | malformedDescriptor (cause : Descriptor.Fault)
  | malformedCode (cause : Code.Fault)
  | configuration (cause : ConfigurationFault)
  | duplicateEvent (name : String) (existing requested : Bool)
  | unknownEvent (name : String)
  | eventAlreadyAttached (event attached requested : String)
  | eventNotAttached (event : String)
  | synthesis (method : String) (cause : SynthesisFault)
  | execution (cause : Machine.Fault)
  deriving DecidableEq

/-- The wording of a machine fault, with the heading of its class. -/
def Machine.Fault.headedMessage (fault : Machine.Fault) : String :=
  match fault with
  | .labels _ => malformedText fault.message
  | .stackOverflow .. | .instructionLimit _ | .callDepthLimit _ | .missingMethod _ | .native _ =>
      fault.message
  | _ => "Emulation - " ++ fault.message

/-- The wording of an error. -/
def Error.message : Error → String
  | .malformedDescriptor cause => malformedText cause.message
  | .malformedCode cause => malformedText cause.message
  | .configuration cause => "Configuration error - " ++ cause.message
  | .duplicateEvent name existing requested =>
      s!"Event '{name}' is already defined with cancellable={existing}, " ++
        s!"requested cancellable={requested}"
  | .unknownEvent name => s!"Event '{name}' is not registered"
  | .eventAlreadyAttached event attached requested =>
      s!"Event '{event}' cannot be attached to {requested}, it is still attached to {attached}"
  | .eventNotAttached event => s!"Event '{event}' is not attached to the requested method"
  | .synthesis method cause => s!"Failed to synthesize injection in {method}: {cause.message}"
  | .execution cause => cause.headedMessage

/-- Whether an error shows that the registrations contradict each other. -/
def Error.isConfiguration : Error → Bool
  | .configuration _ | .duplicateEvent .. | .unknownEvent _ | .eventAlreadyAttached .. |
    .eventNotAttached _ => true
  | _ => false

end Weaver
