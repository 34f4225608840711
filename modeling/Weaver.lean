import Weaver.Body.Depth
import Weaver.Target.Registry
import Weaver.Event.Store
import Weaver.Site.Locator
import Weaver.Diagnostic
import Weaver.Settings
import Weaver.Splice.Basic
import Weaver.Dispatch.Arena
import Weaver.Engine.Transform
import Weaver.Machine.Interpreter
import Weaver.Proofs.Body.Depths
import Weaver.Proofs.Machine.Counted
import Weaver.Proofs.Machine.Arguments
import Weaver.Proofs.Splice.Transparent
import Weaver.Proofs.Splice.Cancelled
import Weaver.Proofs.Splice.Verified
import Weaver.Proofs.Dispatch.Listeners
import Weaver.Proofs.Engine.Transformed
import Weaver.Proofs.Engine.Invariant
import Weaver.Proofs.Dispatch.Arena
import Weaver.Proofs.Engine.Growth
import Weaver.Proofs.Descriptor.Grammar
import Weaver.Proofs.Dispatch.Generation
import Weaver.Proofs.Engine.Linking
import Weaver.Proofs.Engine.Rollback
import Weaver.Proofs.Engine.Redirection
import Weaver.Proofs.Engine.Registrations
import Weaver.Proofs.Splice.Entered
import Weaver.Proofs.Machine.Stores
import Weaver.Proofs.Splice.Widened
import Weaver.Proofs.Splice.Reloaded
import Weaver.Proofs.Body.Relinked
import Weaver.Proofs.Splice.Relinked
import Weaver.Proofs.Engine.Relinked
import Weaver.Proofs.Engine.Idle
import Weaver.Proofs.Engine.Isolated
import Weaver.Proofs.Splice.Refusal
import Weaver.Proofs.Engine.Refusal
import Weaver.Proofs.Redirect.Verified
import Weaver.Proofs.Event.Comparison
import Weaver.Proofs.Machine.Memory
import Weaver.Proofs.Site.Denotation
import Weaver.Proofs.Descriptor.Derived
import Weaver.Proofs.Machine.Session
import Weaver.Proofs.Machine.Changes
import Weaver.Proofs.Machine.Lifetime
import Weaver.Proofs.Machine.Fields
import Weaver.Proofs.Code.Freshness
import Weaver.Proofs.Event.Registry
import Weaver.Proofs.Dispatch.Occupancy
import Weaver.Proofs.Engine.Attachments
import Weaver.Proofs.Redirect.Queue
import Weaver.Proofs.Machine.Layout
import Weaver.Proofs.Dispatch.Verified
import Weaver.Proofs.Machine.Handles
import Weaver.Proofs.Machine.Closure
import Weaver.Proofs.Machine.Soundness
import Weaver.Proofs.Code.Agreement
import Weaver.Proofs.Descriptor.Resumed
import Weaver.Proofs.Machine.Locals
import Weaver.Proofs.Engine.Reports
