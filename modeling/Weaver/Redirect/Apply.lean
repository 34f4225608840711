import Weaver.Code.Run
import Weaver.Diagnostic
import Weaver.Redirect.Registry

/-!
# Redirected bodies

A redirected body calls the handlers of its redirection one after the other, each with the receiver
and all arguments.  Handlers that replace the body return what the last of them returns; handlers
that run before it have their results discarded.
-/

namespace Weaver.Redirect

/-- The signature of the handlers of a body: its own, with the receiver as first parameter. -/
def handlerSignature (body : Body) : Signature :=
  ⟨(if body.isStatic then [] else [.ofClass body.owner]) ++ body.signature.params,
    body.signature.ret⟩

/-- Whether a handler accepts a signature: it has that one or none of its own. -/
def accepts (handler : Listener) (signature : Signature) : Bool :=
  handler.signature.all (· = signature)

/-- The methods that are called, in order. -/
def bound (redirect : Redirect) (body : Body) : List MethodRef :=
  (redirect.handlers.filter (accepts · (handlerSignature body))).map fun handler =>
    .ofNames handler.owner handler.name (handlerSignature body)

/-- The warnings for the handlers that do not fit. -/
def warnings (redirect : Redirect) (body : Body) : List Diagnostic :=
  (redirect.handlers.filter (!accepts · (handlerSignature body))).map fun handler =>
    { severity := .warning
      category := .redirect
      message :=
        s!"Handler {handler.text} does not accept {(handlerSignature body).text}, skipped"
      method := body.text }

/-- Call a handler with the receiver and the arguments of the body. -/
def callOf (signature : Signature) (handler : MethodRef) : List Instr :=
  Run.loadArgs signature 0 ++ [.call .static handler]

/-- Discard a result, if there is one. -/
def discardResult (ret : Ty) : List Instr := ((ret.kind?.map Run.discard).getD [])

/-- Call the handlers and discard all their results. -/
def prependInstrs (signature : Signature) (handlers : List MethodRef) : List Instr :=
  handlers.flatMap fun handler => callOf signature handler ++ discardResult signature.ret

/-- Call the handlers and return the result of the last one. -/
def replaceInstrs (signature : Signature) (handlers : List MethodRef) : List Instr :=
  prependInstrs signature handlers.dropLast ++
    handlers.getLast?.toList.flatMap (callOf signature) ++ [.ret signature.ret.kind?]

/-- The run that calls the handlers. -/
def instrs (kind : RedirectKind) (signature : Signature) (handlers : List MethodRef) :
    List Instr :=
  match kind with
  | .replace => replaceInstrs signature handlers
  | .prepend => prependInstrs signature handlers

/-- The body with a run in the place of its code, or before it. -/
def place (kind : RedirectKind) (body : Body) (run : Run) : Except Code.Fault Body :=
  match kind with
  | .replace => .ok { body with code := body.code.replace run.instrs, maxStack := run.peak }
  | .prepend =>
      match body.code.insert 0 run.instrs with
      | (.error fault, _) => .error fault
      | (.ok (), code) => .ok { body with code, maxStack := max body.maxStack run.peak }

/-- The entry that reports a redirection. -/
def report (kind : RedirectKind) (body : Body) (count : Nat) : Diagnostic :=
  { severity := .info
    category := .redirect
    message := s!"{kind.text} redirected to {count} handler(s)"
    method := body.text }

/-- A body with the calls of the given handlers in place. -/
def withHandlers (kind : RedirectKind) (body : Body) (handlers : List MethodRef) :
    Except Error Body :=
  match Run.ofList (instrs kind (handlerSignature body) handlers) with
  | .error fault => .error (.synthesis body.text (.redirect fault))
  | .ok run =>
      match place kind body run with
      | .error fault => .error (.malformedCode fault)
      | .ok body => .ok body

/-- Redirect a body: `none` if no handler fits.  The entries are for the log in any case. -/
def apply (redirect : Redirect) (body : Body) : Except Error (Option Body) × List Diagnostic :=
  let warned := redirect.warnings body
  match redirect.bound body with
  | [] => (.ok none, warned)
  | handlers =>
      match withHandlers redirect.kind body handlers with
      | .error error => (.error error, warned)
      | .ok redirected =>
          (.ok (some redirected), warned ++ [report redirect.kind body handlers.length])

end Weaver.Redirect
