import Weaver.Engine.Basic
import Weaver.Proofs.Machine.Completion
import Weaver.Proofs.Redirect.Handlers
import Weaver.Proofs.Splice.Shifted

/-!
# Redirected bodies run their handlers

A redirection succeeds whenever one of its handlers fits.  Handlers that replace a body are called
and the result of the last one is returned; handlers that run before it are called, and then the body
goes on from its first instruction, in lock-step with what it did without them.
-/

namespace Weaver

namespace Redirect

open Machine Machine.Interpreter

/-- The handlers take the place of a body.  None of its instructions is left, and an execution calls
the handlers in their order, each once with all arguments, and returns what the last one answers. -/
structure Replaces (interpreter : Interpreter) (behaviour : Behaviour) (body : Body)
    (handlers : List MethodRef) (args : List Value) (redirected : Body) : Prop where
  instrs_eq : redirected.code.instrs = replaceInstrs (handlerSignature body) handlers
  calls : ∃ first, Frame.enter redirected args = .ok first ∧
    ∀ front final world middle result answered, handlers = front ++ [final] →
      Served interpreter.limits behaviour body.signature.ret args front world middle →
      Answers interpreter.limits behaviour body.signature.ret args final middle result answered →
      answered.executed < interpreter.limits.budget →
      ∃ leaving, interpreter.Makes behaviour (handlers.map (·, args)) (first, world)
          (leaving, answered) ∧
        interpreter.step behaviour leaving answered = (.ok (.left result), answered.counted) ∧
        (Counts behaviour →
          interpreter.complete behaviour first world = (.ok result, answered.counted))

/-- The frame of a body behind the code that calls the handlers. -/
def behindCalls (body : Body) (handlers : List MethodRef) (redirected : Body) (frame : Frame) :
    Frame :=
  frame.image redirected #[] (· + (prependInstrs (handlerSignature body) handlers).length)

/-- The handlers run before a body.  An execution calls them in their order, each once with all
arguments, and comes to the first instruction of the body with the locals that the body has on entry
and nothing on the stack.  If the depths of the body are known and its stack covers them, it goes on
from there as the body does from the world that the handlers left: it comes to the same states in as
many steps, and ends in the same way. -/
structure Precedes (interpreter : Interpreter) (behaviour : Behaviour) (body : Body)
    (handlers : List MethodRef) (args : List Value) (redirected : Body) : Prop where
  instrs_eq : redirected.code.instrs =
    prependInstrs (handlerSignature body) handlers ++ body.code.instrs
  calls : ∃ original first, Frame.enter body args = .ok original ∧
    Frame.enter redirected args = .ok first ∧ original.pc = 0 ∧ original.stack = [] ∧
    ∀ world after, Served interpreter.limits behaviour body.signature.ret args handlers world after →
      interpreter.Makes behaviour (handlers.map (·, args)) (first, world)
          (behindCalls body handlers redirected original, after) ∧
        ∀ depths, body.Stacked depths →
          (∀ state, Relation.ReflTransGen (interpreter.Advances behaviour) (original, after) state →
            interpreter.GivesDeclared behaviour state.1 state.2) →
          (∀ count, interpreter.follow behaviour count
              (behindCalls body handlers redirected original, after) =
            (interpreter.follow behaviour count (original, after)).map
              (Prod.map (behindCalls body handlers redirected) id)) ∧
          (∀ steps, interpreter.run behaviour steps
              (behindCalls body handlers redirected original) after =
            interpreter.run behaviour steps original after) ∧
          (Counts behaviour → interpreter.complete behaviour first world =
            interpreter.complete behaviour original after)

/-- What becomes of executions of a body by a redirection of a kind. -/
def Runs (kind : RedirectKind) (interpreter : Interpreter) (behaviour : Behaviour) (body : Body)
    (handlers : List MethodRef) (args : List Value) (redirected : Body) : Prop :=
  match kind with
  | .replace => Replaces interpreter behaviour body handlers args redirected
  | .prepend => Precedes interpreter behaviour body handlers args redirected

variable {interpreter : Interpreter} {behaviour : Behaviour} {kind : RedirectKind}
  {body redirected : Body} {handlers : List MethodRef} {args : List Value}

theorem Redirects.signature_eq (redirects : Redirects kind body handlers redirected) :
    redirected.signature = body.signature :=
  congrArg MethodRef.signature redirects.ref_eq

theorem Redirects.isStatic_eq (redirects : Redirects kind body handlers redirected) :
    redirected.isStatic = body.isStatic :=
  congrArg Access.isStatic redirects.access_eq

theorem Redirects.takes (redirects : Redirects kind body handlers redirected)
    (takes : Takes body args) : Takes redirected args := by
  unfold Takes Body.argumentKinds at takes ⊢
  rw [redirects.signature_eq, redirects.isStatic_eq]
  exact takes

/-- The declared locals of a redirected body cover its arguments if those of the body do. -/
theorem Redirects.covered (redirects : Redirects kind body handlers redirected)
    (covered : body.firstArgSlot + body.signature.totalSlots ≤ body.maxLocals) :
    redirected.firstArgSlot + redirected.signature.totalSlots ≤ redirected.maxLocals := by
  unfold Body.firstArgSlot at covered ⊢
  rw [redirects.signature_eq, redirects.isStatic_eq, redirects.locals_eq]
  exact covered

/-- A frame of a redirected body can call the handlers as long as the arguments are in its locals. -/
theorem Redirects.ready (redirects : Redirects kind body handlers redirected)
    (takes : Takes body args)
    (covered : body.firstArgSlot + body.signature.totalSlots ≤ body.maxLocals)
    (narrow : body.maxLocals ≤ slotLimit) {frame : Frame} (bodyEq : frame.body = redirected)
    (empty : frame.stack = []) (holds : Holds frame.locals 0 args) :
    Ready (handlerSignature body) args frame where
  empty
  holds
  inside := by
    rw [bodyEq, redirects.locals_eq, takes.sum_slots]
    exact covered
  narrow := by
    rw [bodyEq, redirects.locals_eq]
    exact narrow
  hasRoom := by
    rw [bodyEq]
    exact redirects.hasRoom
  kinds := takes.kinds_handlerSignature

/-- The code that calls handlers defines no label. -/
theorem label_not_mem_instrs (kind : RedirectKind) (signature : Signature)
    (handlers : List MethodRef) (label : Label) :
    Instr.label label ∉ instrs kind signature handlers := by
  have call : ∀ handler, Instr.label label ∉ callOf signature handler := by
    simp [callOf, Run.loadArgs]
  have prepend : ∀ handlers, Instr.label label ∉ prependInstrs signature handlers := by
    simp [prependInstrs, call, discardResult_eq]
  cases kind with
  | replace => simp [instrs, replaceInstrs, prepend, call]
  | prepend => exact prepend handlers

/-- Handlers that replace a body run in its place. -/
theorem Redirects.replaces (redirects : Redirects .replace body handlers redirected)
    (signatures : ∀ handler ∈ handlers, handler.signature = handlerSignature body)
    (takes : Takes body args)
    (covered : body.firstArgSlot + body.signature.totalSlots ≤ body.maxLocals)
    (narrow : body.maxLocals ≤ slotLimit) :
    Replaces interpreter behaviour body handlers args redirected := by
  have instrsEq : redirected.code.instrs = replaceInstrs (handlerSignature body) handlers :=
    redirects.instrs_eq.trans (List.append_nil _)
  have unique : Code.UniqueLabels redirected.code.instrs := by
    rw [instrsEq]
    exact Code.uniqueLabels_of_unlabelled (label_not_mem_instrs .replace _ handlers)
  obtain ⟨locals, entered, _, holds⟩ := Frame.enter_eq_ok (redirects.takes takes)
    (Body.labelPositions_eq_labels unique) (redirects.covered covered)
  refine ⟨instrsEq, _, entered, ?_⟩
  rintro front final world middle result answered rfl served answers budget
  have ready : Ready (handlerSignature body) args
      ⟨redirected, redirected.code.instrs.toArray, redirected.labels, 0, [], locals⟩ :=
    redirects.ready takes covered narrow rfl rfl holds
  have stretch : Stretch redirected.code.instrs.toArray 0
      (replaceInstrs (handlerSignature body) (front ++ [final])) := by
    intro offset _
    rw [instrsEq]
    simp
  have servedAs : Served interpreter.limits behaviour (handlerSignature body).ret args front world
      middle := served
  have answersAs : Answers interpreter.limits behaviour (handlerSignature body).ret args final middle
      result answered := answers
  obtain ⟨leaving, makes, left⟩ :=
    makes_of_replaceInstrs servedAs answersAs budget ready signatures stretch
  exact ⟨leaving, makes, left, fun counts =>
    (complete_of_reaches counts makes.reaches).trans (complete_of_left left)⟩

/-- The code of a body behind the calls of handlers is the body with a run inserted at its start. -/
theorem Redirects.inserted (redirects : Redirects .prepend body handlers redirected)
    (unique : Code.UniqueLabels body.code.instrs) :
    Splice.Inserted body 0 (prependInstrs (handlerSignature body) handlers) redirected where
  ref_eq := redirects.ref_eq
  access_eq := redirects.access_eq
  stack_le := redirects.stack_le rfl
  locals_le := Nat.le_of_eq redirects.locals_eq.symm
  inside := Nat.zero_le _
  instrs_eq := redirects.instrs_eq
  unique
  uniqueRun := Code.uniqueLabels_of_unlabelled (label_not_mem_instrs .prepend _ handlers)
  fresh label member := absurd member (label_not_mem_instrs .prepend _ handlers label)

/-- Handlers that run before a body are followed by the body. -/
theorem Redirects.precedes (redirects : Redirects .prepend body handlers redirected)
    (signatures : ∀ handler ∈ handlers, handler.signature = handlerSignature body)
    (takes : Takes body args)
    (covered : body.firstArgSlot + body.signature.totalSlots ≤ body.maxLocals)
    (few : (handlerSignature body).totalSlots ≤ 1 + Signature.maxParameterSlots)
    (narrow : body.maxLocals ≤ slotLimit) (stackNarrow : body.maxStack ≤ slotLimit)
    (unique : Code.UniqueLabels body.code.instrs) :
    Precedes interpreter behaviour body handlers args redirected := by
  have inserted := redirects.inserted unique
  obtain ⟨locals, entered, size, holds⟩ := Frame.enter_eq_ok takes
    (Body.labelPositions_eq_labels unique) covered
  have mirrors := Frame.enter_image inserted args
  rw [entered, redirects.locals_eq, Nat.sub_self, Array.replicate_zero] at mirrors
  obtain ⟨enteredRedirected, executes⟩ := mirrors
  refine ⟨redirects.instrs_eq, _, _, entered, enteredRedirected, rfl, rfl, ?_⟩
  intro world after served
  have ready : Ready (handlerSignature body) args
      (Frame.image redirected #[] (Splice.entrance 0
          (prependInstrs (handlerSignature body) handlers).length)
        ⟨body, body.code.instrs.toArray, body.labels, 0, [], locals⟩) := by
    apply redirects.ready takes covered narrow rfl rfl
    simpa [Frame.image] using holds
  have stretch : Stretch redirected.code.instrs.toArray 0
      (prependInstrs (handlerSignature body) handlers) := by
    intro offset within
    rw [← inserted.fetch_inserted within]
    simp
  have servedAs : Served interpreter.limits behaviour (handlerSignature body).ret args handlers world
      after := served
  have makes := servedAs.makes ready signatures stretch
  refine ⟨makes, ?_⟩
  intro depths stacked declared
  -- More stack is declared only where the body declares less than the handlers need.
  have countable : body.maxStack < redirected.maxStack → Body.Countable body.code.instrs := by
    intro more
    have declared := redirects.stack_le_max rfl
    have result := (handlerSignature body).ret.slots_le_two
    have limit : 1 + Signature.maxParameterSlots + 2 ≤ slotLimit := by decide
    apply stacked.countable
    unfold needs at declared
    omega
  have shifted : Splice.Shifted body depths (prependInstrs (handlerSignature body) handlers)
      redirected := ⟨inserted, stacked, stackNarrow, redirects.locals_eq, countable⟩
  have regular : interpreter.Regular behaviour body
      (⟨body, body.code.instrs.toArray, body.labels, 0, [], locals⟩, after) :=
    { executes
      stands := ⟨0, 0, Body.reaches_start _, rfl, rfl, Body.labelPositions_eq_labels unique, rfl,
        trivial, rfl⟩
      declared }
  refine ⟨fun count => follow_shifted shifted count regular,
    fun steps => run_shifted shifted steps regular, fun counts => ?_⟩
  exact (complete_of_reaches counts makes.reaches).trans (run_shifted shifted _ regular)

end Redirect

namespace Engine

open Machine

/-- Redirection means what it says.  If one of the handlers of a body fits, redirecting the body
succeeds, and executing it with any arguments that it declares calls the handlers that fit in the
order of their queue, each once with the receiver and all arguments.  Handlers that replace the body
run instead of it, and the result of the last one is returned; handlers that run before it are
followed by the body. -/
theorem redirect_runs_handlers (engine : Engine) (body : Body) (redirect : Redirect)
    (interpreter : Interpreter) (behaviour : Behaviour) (args : List Value)
    (found : engine.redirects.find? engine.settings.epochOrder body = some redirect)
    (fits : redirect.bound body ≠ []) (takes : Takes body args)
    (covered : body.firstArgSlot + body.signature.totalSlots ≤ body.maxLocals)
    (localsNarrow : body.maxLocals ≤ slotLimit) (stackNarrow : body.maxStack ≤ slotLimit)
    (unique : redirect.kind = .prepend → Code.UniqueLabels body.code.instrs) :
    ∃ after redirected, engine.redirect body = (.ok true, after, redirected) ∧
      Redirect.Runs redirect.kind interpreter behaviour body (redirect.bound body) args
        redirected := by
  have few := Redirect.totalSlots_le found
  obtain ⟨redirected, entries, applied, redirects⟩ :=
    Redirect.apply_eq_ok fits (few.trans (by decide))
  have signatures : ∀ handler ∈ redirect.bound body,
      handler.signature = Redirect.handlerSignature body :=
    fun _ => Redirect.signature_of_mem_bound
  refine ⟨engine.note entries, redirected, by rw [Engine.redirect, found]; simp only [applied], ?_⟩
  unfold Redirect.Runs
  cases kindEq : redirect.kind with
  | replace =>
      rw [kindEq] at redirects
      exact redirects.replaces signatures takes covered localsNarrow
  | prepend =>
      rw [kindEq] at redirects
      exact redirects.precedes signatures takes covered few localsNarrow stackNarrow
        (unique kindEq)

/-- An engine that redirects one body. -/
def redirecting (body : Body) (limited : body.signature.totalSlots ≤ Signature.maxParameterSlots)
    (kind : RedirectKind) (handlers : List Listener) : Engine :=
  let target : Target :=
    ⟨⟨body.ref, none, none, List.forall_mem_singleton.mpr limited⟩, List.cons_ne_nil _ _⟩
  { fresh .standard with redirects := ⟨[⟨target, kind, handlers⟩]⟩ }

/-- An instance method that returns its argument. -/
def echo : Body :=
  { Body.ofNames "a/B" "m" ⟨[.long], .long⟩ ⟨1⟩ with
    code := .ofList [.load .long 1, .ret (some .long)]
    maxStack := 2 }

/-- A handler without a signature, one that takes something else, and one that takes what it gets. -/
def echoHandlers : List Listener :=
  [⟨"h/H", "first", none⟩, ⟨"h/H", "other", some ⟨[.int], .long⟩⟩,
    ⟨"h/H", "second", some ⟨[.object "a/B", .long], .long⟩⟩]

/-- The behaviour of methods that return the same number whatever they are given. -/
def constant : Behaviour := fun _ _ world => (.ok (some (.long 1)), world)

theorem redirect_runs_handlers_echo :
    ∃ redirect, (redirecting echo (by decide) .prepend echoHandlers).redirects.find? Epoch.defaultOrder echo =
        some redirect ∧
      redirect.bound echo =
        [⟨"h/H", "first", ⟨[.object "a/B", .long], .long⟩⟩,
          ⟨"h/H", "second", ⟨[.object "a/B", .long], .long⟩⟩] ∧
      Takes echo [.null, .long 5] ∧
      ∃ after redirected, (redirecting echo (by decide) .prepend echoHandlers).redirect echo =
          (.ok true, after, redirected) ∧
        ∃ first last, Frame.enter redirected [.null, .long 5] = .ok first ∧
          Interpreter.Makes ⟨.empty, .standard⟩ constant
            [(⟨"h/H", "first", ⟨[.object "a/B", .long], .long⟩⟩, [.null, .long 5]),
              (⟨"h/H", "second", ⟨[.object "a/B", .long], .long⟩⟩, [.null, .long 5])]
            (first, .fresh .standard .empty) last ∧
          last.1.code[last.1.pc]? = some (.load .long 1) ∧ last.1.stack = [] := by
  let redirect : Redirect :=
    ⟨⟨⟨echo.ref, none, none, by decide⟩, by decide⟩, .prepend, echoHandlers⟩
  have found : (redirecting echo (by decide) .prepend echoHandlers).redirects.find?
      (redirecting echo (by decide) .prepend echoHandlers).settings.epochOrder echo = some redirect := by
    decide +kernel
  have bound : redirect.bound echo =
      [⟨"h/H", "first", ⟨[.object "a/B", .long], .long⟩⟩,
        ⟨"h/H", "second", ⟨[.object "a/B", .long], .long⟩⟩] := by
    decide +kernel
  have takes : Takes echo [.null, .long 5] := by decide
  have unlabelled : Code.UniqueLabels echo.code.instrs :=
    Code.uniqueLabels_of_unlabelled (by simp [echo, Code.ofList, Code.replace])
  obtain ⟨after, redirected, done, runs⟩ := redirect_runs_handlers
    (redirecting echo (by decide) .prepend echoHandlers) echo redirect ⟨.empty, .standard⟩ constant
    [.null, .long 5] found (by rw [bound]; decide) takes (by decide) (by decide) (by decide)
    (fun _ => unlabelled)
  obtain ⟨instrsEq, original, first, entered, enteredRedirected, pcEq, stackEq, calls⟩ :
    Redirect.Precedes _ _ _ _ _ _ := runs
  rw [bound] at calls instrsEq
  have served : Redirect.Served (.standard) constant (.long) [.null, .long 5]
      [⟨"h/H", "first", ⟨[.object "a/B", .long], .long⟩⟩,
        ⟨"h/H", "second", ⟨[.object "a/B", .long], .long⟩⟩]
      (.fresh .standard .empty) ((World.fresh .standard .empty).spent 10) :=
    .next ⟨by decide, rfl, rfl⟩ (by decide) (.next ⟨by decide, rfl, rfl⟩ (by decide) .done)
  refine ⟨redirect, found, bound, takes, after, redirected, done, first, _, enteredRedirected,
    (calls _ _ served).1, ?_, stackEq⟩
  simp only [Redirect.behindCalls, Frame.image, pcEq, instrsEq]
  rfl

/-- A static method that defines a label twice. -/
def repeated : Body :=
  { Body.ofNames "a/B" "m" ⟨[], .void⟩ ⟨8⟩ with
    code := .ofList [.label ⟨0⟩, .label ⟨0⟩, .ret none] }

/-- The labels must not be defined twice where handlers run before a body: it cannot be entered then,
and no handler is called. -/
theorem not_always_runs_handlers :
    (¬ ∀ (engine : Engine) (body : Body) (redirect : Redirect) (interpreter : Interpreter)
      (behaviour : Behaviour) (args : List Value),
      engine.redirects.find? engine.settings.epochOrder body = some redirect →
      redirect.bound body ≠ [] → Takes body args →
      body.firstArgSlot + body.signature.totalSlots ≤ body.maxLocals →
      body.maxLocals ≤ slotLimit → body.maxStack ≤ slotLimit →
      ∃ after redirected, engine.redirect body = (.ok true, after, redirected) ∧
        Redirect.Runs redirect.kind interpreter behaviour body (redirect.bound body) args
          redirected) ∧
    ∃ after redirected, (redirecting repeated (by decide) .prepend [⟨"h/H", "on", none⟩]).redirect repeated =
        (.ok true, after, redirected) ∧
      ∀ (interpreter : Interpreter) (depth : Nat) (world : World),
        interpreter.executeWithin (depth + 1) redirected [] world =
          (.error (.labels (.duplicateLabel ⟨0⟩)), world) := by
  let handlers : List Listener := [⟨"h/H", "on", none⟩]
  let redirect : Redirect :=
    ⟨⟨⟨repeated.ref, none, none, by decide⟩, by decide⟩, .prepend, handlers⟩
  have succeeds : ((redirecting repeated (by decide) .prepend handlers).redirect repeated).1 = .ok true := by
    decide +kernel
  have refused : Frame.enter ((redirecting repeated (by decide) .prepend handlers).redirect repeated).2.2 [] =
      .error (.labels (.duplicateLabel ⟨0⟩)) :=
    Frame.enter_eq_error (by decide +kernel) (by decide +kernel)
  constructor
  · intro always
    obtain ⟨after, redirected, done, runs⟩ := always (redirecting repeated (by decide) .prepend handlers)
      repeated redirect ⟨.empty, .standard⟩ constant [] (by decide +kernel) (by decide +kernel)
      (by decide) (by decide) (by decide) (by decide)
    rw [done] at refused
    obtain ⟨_, _, first, _, entered, _⟩ : Redirect.Precedes _ _ _ _ _ _ := runs
    cases refused.symm.trans entered
  · refine ⟨_, _, Prod.ext succeeds rfl, fun interpreter depth world => ?_⟩
    rw [Interpreter.executeWithin, refused]

end Engine

end Weaver
