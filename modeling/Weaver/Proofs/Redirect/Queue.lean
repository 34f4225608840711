import Mathlib.Data.List.Basic
import Mathlib.Data.List.Induction
import Weaver.Engine.Basic

/-!
# The queues of redirections

A host asks for handlers of any targets, and some of what it asks for is refused.  The redirections
are a function of the requests that were granted: one for each target, of the kind of its first
request, whose queue has every handler once, as it was first asked for.  Those that asked to be
earliest come first, the latest of them in front, and the others follow in their order.  A refused
request leaves no trace, nor does one for a handler that is queued already.
-/

namespace Weaver

/-- The first entry of each key, in their order. -/
def firstsBy {α κ : Type} [DecidableEq κ] (key : α → κ) : List α → List α
  | [] => []
  | entry :: later => entry :: (firstsBy key later).filter fun other => key other ≠ key entry

section FirstsBy

variable {α κ : Type} [DecidableEq κ] {key : α → κ} {entries : List α} {wanted : κ}

/-- The first entry of a key is the one that a search for the key finds. -/
theorem find?_firstsBy (key : α → κ) (entries : List α) (wanted : κ) :
    (firstsBy key entries).find? (fun entry => key entry = wanted) =
      entries.find? fun entry => key entry = wanted := by
  induction entries with
  | nil => rfl
  | cons entry later ih =>
      rw [firstsBy, List.find?_cons, List.find?_cons, List.find?_filter, ← ih]
      by_cases here : key entry = wanted
      · simp [here]
      · rw [decide_eq_false here]
        dsimp only
        congr 1
        funext other
        by_cases there : key other = wanted
        · simp [there, Ne.symm here]
        · simp [there]

theorem mem_of_mem_firstsBy {entry : α} (member : entry ∈ firstsBy key entries) :
    entry ∈ entries := by
  induction entries with
  | nil => exact member
  | cons first later ih =>
      rcases List.mem_cons.mp member with rfl | behind
      · exact List.mem_cons_self
      · exact List.mem_cons_of_mem first (ih (List.mem_filter.mp behind).1)

/-- Every key has a first entry. -/
theorem exists_mem_firstsBy_iff :
    (∃ first ∈ firstsBy key entries, key first = wanted) ↔
      ∃ entry ∈ entries, key entry = wanted := by
  have found := congrArg Option.isSome (find?_firstsBy key entries wanted)
  rw [Bool.eq_iff_iff, List.find?_isSome, List.find?_isSome] at found
  simpa only [decide_eq_true_eq] using found

/-- One more entry is a first one if its key is new. -/
theorem firstsBy_concat (key : α → κ) (entries : List α) (next : α) :
    firstsBy key (entries ++ [next]) =
      if ∃ entry ∈ entries, key entry = key next then firstsBy key entries
      else firstsBy key entries ++ [next] := by
  induction entries with
  | nil => simp [firstsBy]
  | cons entry later ih =>
      rw [List.cons_append, firstsBy, firstsBy, ih]
      simp only [List.exists_mem_cons_iff]
      by_cases known : ∃ entry ∈ later, key entry = key next
      · rw [if_pos known, if_pos (.inr known)]
      · rw [if_neg known, List.filter_append]
        by_cases here : key entry = key next
        · rw [if_pos (.inl here)]
          simp [here]
        · rw [if_neg (not_or.mpr ⟨here, known⟩)]
          simp [Ne.symm here]

end FirstsBy

namespace Redirect

/-- What a host asks for: a handler of a kind for a target. -/
structure Request where
  target : Target
  handler : Listener
  kind : RedirectKind
  earliest : Bool
  deriving DecidableEq

namespace Request

/-- The handlers as they were first asked for, the earliest ones in front and in reverse order. -/
def queue (requests : List Request) : List Listener :=
  let firsts := firstsBy handler requests
  ((firsts.filter (·.earliest)).map handler).reverse ++
    (firsts.filter (!·.earliest)).map handler

/-- The requests for a target. -/
def about (target : Target) (requests : List Request) : List Request :=
  requests.filter fun request => request.target = target

/-- The redirection of a target whose first request is given. -/
def redirect (requests : List Request) (first : Request) : Redirect :=
  ⟨first.target, first.kind, queue (about first.target requests)⟩

/-- The redirections that requests make, one for each target. -/
def registry (requests : List Request) : RedirectRegistry :=
  ⟨(firstsBy target requests).map (redirect requests)⟩

/-- The first request for a target. -/
def first? (requests : List Request) (target : Target) : Option Request :=
  requests.find? fun request => request.target = target

variable {requests : List Request} {next first : Request} {handler : Listener} {target : Target}

theorem mem_queue_iff :
    handler ∈ queue requests ↔ ∃ request ∈ requests, request.handler = handler := by
  rw [← exists_mem_firstsBy_iff]
  unfold queue
  simp only [List.mem_append, List.mem_reverse, List.mem_map, List.mem_filter]
  constructor
  · rintro (⟨request, ⟨member, _⟩, same⟩ | ⟨request, ⟨member, _⟩, same⟩)
    · exact ⟨request, member, same⟩
    · exact ⟨request, member, same⟩
  · rintro ⟨request, member, same⟩
    cases early : request.earliest with
    | true => exact .inl ⟨request, ⟨member, early⟩, same⟩
    | false => exact .inr ⟨request, ⟨member, by simp [early]⟩, same⟩

/-- One more request adds its handler at the front or at the end, unless it is queued. -/
theorem queue_concat (requests : List Request) (next : Request) :
    queue (requests ++ [next]) =
      if next.handler ∈ queue requests then queue requests
      else if next.earliest then next.handler :: queue requests
      else queue requests ++ [next.handler] := by
  simp only [mem_queue_iff]
  by_cases known : ∃ request ∈ requests, request.handler = next.handler
  · rw [if_pos known, queue, firstsBy_concat, if_pos known, queue]
  · rw [if_neg known, queue, firstsBy_concat, if_neg known, queue]
    cases early : next.earliest with
    | true => simp [List.filter_append, early]
    | false => simp [List.filter_append, early]

/-- A handler is added to a redirection as one more request for it adds it to the queue. -/
theorem add_redirect (same : first.target = next.target) :
    (redirect requests first).add next.handler next.earliest =
      redirect (requests ++ [next]) first := by
  have grown : about first.target (requests ++ [next]) = about first.target requests ++ [next] := by
    simp [about, List.filter_append, same]
  rw [redirect, redirect, grown, queue_concat, Redirect.add]
  split
  · rfl
  · cases next.earliest <;> rfl

theorem redirect_concat_of_ne (apart : first.target ≠ next.target) :
    redirect (requests ++ [next]) first = redirect requests first := by
  have kept : about first.target (requests ++ [next]) = about first.target requests := by
    simp [about, List.filter_append, Ne.symm apart]
  rw [redirect, redirect, kept]

/-- A handler that is queued already changes no redirection. -/
theorem registry_concat_of_queued {request : Request} (member : request ∈ requests)
    (sameTarget : request.target = next.target) (sameHandler : request.handler = next.handler) :
    registry (requests ++ [next]) = registry requests := by
  rw [registry, registry, firstsBy_concat, if_pos ⟨request, member, sameTarget⟩]
  congr 1
  refine List.map_congr_left fun first _ => ?_
  by_cases same : first.target = next.target
  · have queued : next.handler ∈ queue (about first.target requests) :=
      mem_queue_iff.mpr
        ⟨request, List.mem_filter.mpr ⟨member, by simp [sameTarget, same]⟩, sameHandler⟩
    rw [← add_redirect same, Redirect.add]
    exact if_pos queued
  · exact redirect_concat_of_ne same

theorem first?_eq_none_iff :
    first? requests target = none ↔ ¬ ∃ request ∈ requests, request.target = target := by
  simp [first?]

theorem target_of_first? (found : first? requests target = some first) :
    first ∈ requests ∧ first.target = target :=
  ⟨List.mem_of_find?_eq_some found, by simpa using List.find?_some found⟩

theorem first?_concat (requests : List Request) (next : Request) (target : Target) :
    first? (requests ++ [next]) target =
      (first? requests target).or (if next.target = target then some next else none) := by
  rw [first?, List.find?_append, ← first?]
  by_cases same : next.target = target <;> simp [same]

theorem get?_registry (requests : List Request) (target : Target) :
    (registry requests).get? target = (first? requests target).map (redirect requests) := by
  rw [first?, ← find?_firstsBy, registry, RedirectRegistry.get?, List.find?_map]
  rfl

theorem register_of_new (new : first? requests next.target = none) :
    (registry requests).register next.target next.handler next.kind next.earliest =
      .ok (registry (requests ++ [next])) := by
  have unknown := first?_eq_none_iff.mp new
  have missing : (registry requests).get? next.target = none := by rw [get?_registry, new]; rfl
  have alone : about next.target (requests ++ [next]) = [next] := by
    have nothing : about next.target requests = [] :=
      List.filter_eq_nil_iff.mpr fun request member same =>
        unknown ⟨request, member, of_decide_eq_true same⟩
    rw [about, List.filter_append, ← about, nothing]
    simp
  have queued : queue [next] = [next.handler] := by
    cases early : next.earliest <;> simp [queue, firstsBy, early]
  rw [RedirectRegistry.register, missing]
  dsimp only
  rw [registry, registry, firstsBy_concat, if_neg unknown, List.map_append, List.map_singleton]
  congr 3
  · refine List.map_congr_left fun first member => (redirect_concat_of_ne fun same => ?_).symm
    exact unknown ⟨first, mem_of_mem_firstsBy member, same⟩
  · rw [redirect, alone, queued]

/-- Another request of the kind of the target adds its handler. -/
theorem register_of_known (found : first? requests next.target = some first)
    (sameKind : first.kind = next.kind) :
    (registry requests).register next.target next.handler next.kind next.earliest =
      .ok (registry (requests ++ [next])) := by
  have known : ∃ request ∈ requests, request.target = next.target :=
    ⟨first, target_of_first? found⟩
  have present : (registry requests).get? next.target = some (redirect requests first) := by
    rw [get?_registry, found]
    rfl
  have agree : ¬ (redirect requests first).kind ≠ next.kind := not_not.mpr sameKind
  rw [RedirectRegistry.register, present]
  dsimp only
  rw [if_neg agree, registry, registry, firstsBy_concat, if_pos known, List.map_map]
  congr 2
  refine List.map_congr_left fun other _ => ?_
  by_cases same : other.target = next.target
  · exact (if_pos same).trans (add_redirect same)
  · exact (if_neg same).trans (redirect_concat_of_ne same).symm

/-- A request of another kind is refused. -/
theorem register_of_mixed (found : first? requests next.target = some first)
    (differs : first.kind ≠ next.kind) :
    (registry requests).register next.target next.handler next.kind next.earliest =
      .error (.configuration
        (.mixedRedirect next.target.text first.kind next.kind next.handler.text)) := by
  have present : (registry requests).get? next.target = some (redirect requests first) := by
    rw [get?_registry, found]
    rfl
  rw [RedirectRegistry.register, present]
  exact if_pos differs

end Request

end Redirect

namespace Engine

open Redirect

/-- Ask for a handler; whether that was granted, and the engine after it. -/
def enlist (engine : Engine) (request : Request) : Except Error Unit × Engine :=
  engine.registerRedirect request.target request.handler request.kind request.earliest

/-- Ask for one more handler; the requests that were granted, and the engine after them. -/
def enlistNext (state : List Request × Engine) (request : Request) : List Request × Engine :=
  match state.2.enlist request with
  | (.ok (), next) => (state.1 ++ [request], next)
  | (.error _, next) => (state.1, next)

/-- Ask for handlers one after the other; the requests that were granted, and the engine after
all. -/
def enlistAll (engine : Engine) (requests : List Request) : List Request × Engine :=
  requests.foldl enlistNext ([], engine)

/-- What an engine holds of the requests that were granted. -/
structure Queues (granted : List Request) (engine : Engine) : Prop where
  redirects_eq : engine.redirects = Request.registry granted
  targets : ∀ request ∈ granted, request.target ∈ engine.targets.targets
  kinds : ∀ request ∈ granted, ∀ first,
    Request.first? granted request.target = some first → first.kind = request.kind

variable {engine : Engine} {granted : List Request} {next first : Request}

/-- A request is granted unless its target has another kind. -/
theorem Queues.enlist_eq_ok (queues : Queues granted engine)
    (agrees : ∀ first, Request.first? granted next.target = some first →
      first.kind = next.kind) :
    engine.enlist next =
      (.ok (), { engine with
        targets := engine.targets.register next.target
        redirects := Request.registry (granted ++ [next]) }) := by
  have registered : engine.redirects.register next.target next.handler next.kind next.earliest =
      .ok (Request.registry (granted ++ [next])) := by
    rw [queues.redirects_eq]
    cases found : Request.first? granted next.target with
    | none => exact Request.register_of_new found
    | some first => exact Request.register_of_known found (agrees first found)
  rw [enlist, registerRedirect]
  dsimp only
  rw [registered]

/-- A request that is refused leaves no trace. -/
theorem Queues.enlist_eq_error (queues : Queues granted engine)
    (found : Request.first? granted next.target = some first) (differs : first.kind ≠ next.kind) :
    engine.enlist next =
      (.error (.configuration
        (.mixedRedirect next.target.text first.kind next.kind next.handler.text)), engine) := by
  have refused := Request.register_of_mixed found differs
  rw [← queues.redirects_eq] at refused
  obtain ⟨member, same⟩ := Request.target_of_first? found
  have known : next.target ∈ engine.targets.targets := same ▸ queues.targets first member
  have kept : engine.targets.register next.target = engine.targets := if_pos known
  rw [enlist, registerRedirect, kept]
  dsimp only
  rw [refused]

/-- A request for a handler that is queued already leaves no trace. -/
theorem Queues.enlist_again (queues : Queues granted engine) {request : Request}
    (member : request ∈ granted) (earliest : Bool) :
    engine.enlist { request with earliest } = (.ok (), engine) := by
  have known : request.target ∈ engine.targets.targets := queues.targets request member
  have kept : engine.targets.register request.target = engine.targets := if_pos known
  have agrees := queues.kinds request member
  have enlisted : engine.enlist { request with earliest } = _ := queues.enlist_eq_ok agrees
  have queued : Request.registry (granted ++ [{ request with earliest }]) = _ :=
    Request.registry_concat_of_queued member rfl rfl
  rw [enlisted, kept, queued, ← queues.redirects_eq]

/-- A request that is granted is held with the others. -/
theorem Queues.grant (queues : Queues granted engine)
    (agrees : ∀ first, Request.first? granted next.target = some first → first.kind = next.kind) :
    Queues (granted ++ [next]) (engine.enlist next).2 := by
  rw [queues.enlist_eq_ok agrees]
  refine ⟨rfl, fun request member => ?_, fun request member first found => ?_⟩
  · rcases List.mem_append.mp member with earlier | last
    · change request.target ∈ (engine.targets.register next.target).targets
      unfold TargetRegistry.register
      split
      · exact queues.targets request earlier
      · exact List.mem_append_left _ (queues.targets request earlier)
    · cases List.mem_singleton.mp last
      exact TargetRegistry.mem_register _ _
  · rw [Request.first?_concat, Option.or_eq_some_iff] at found
    rcases List.mem_append.mp member with earlier | last
    · rcases found with before | ⟨missing, _⟩
      · exact queues.kinds request earlier first before
      · exact absurd ⟨request, earlier, rfl⟩ (Request.first?_eq_none_iff.mp missing)
    · cases List.mem_singleton.mp last
      rcases found with before | ⟨_, here⟩
      · exact agrees first before
      · rw [if_pos rfl] at here
        cases here
        rfl

/-- One more request keeps the account of those that were granted, and the first one for a target is
among them. -/
theorem Queues.enlistNext (queues : Queues granted engine) (next : Request) :
    Queues (enlistNext (granted, engine) next).1 (enlistNext (granted, engine) next).2 ∧
      ∀ target, Request.first? (Engine.enlistNext (granted, engine) next).1 target =
        Request.first? (granted ++ [next]) target := by
  rw [Engine.enlistNext]
  by_cases agrees : ∀ first, Request.first? granted next.target = some first →
      first.kind = next.kind
  · have grown := queues.grant agrees
    rw [queues.enlist_eq_ok agrees] at grown ⊢
    exact ⟨grown, fun _ => rfl⟩
  · push Not at agrees
    obtain ⟨first, found, differs⟩ := agrees
    rw [queues.enlist_eq_error found differs]
    refine ⟨queues, fun target => ?_⟩
    rw [Request.first?_concat]
    by_cases same : next.target = target
    · subst same
      rw [found]
      rfl
    · rw [if_neg same, Option.or_none]

/-- Requests that start without redirections keep this account, and the first request for each
target is granted. -/
theorem queues_enlistAll (unredirected : engine.redirects = .empty) (requests : List Request) :
    Queues (engine.enlistAll requests).1 (engine.enlistAll requests).2 ∧
      ∀ target, Request.first? (engine.enlistAll requests).1 target =
        Request.first? requests target := by
  induction requests using List.reverseRecOn with
  | nil => exact ⟨⟨unredirected, nofun, nofun⟩, fun _ => rfl⟩
  | append_singleton requests last ih =>
      obtain ⟨queues, firsts⟩ := ih
      have stepEq : engine.enlistAll (requests ++ [last]) =
          Engine.enlistNext (engine.enlistAll requests) last := List.foldl_concat _ _ _ _
      obtain ⟨queuesNext, firstsNext⟩ := queues.enlistNext last
      rw [stepEq]
      refine ⟨queuesNext, fun target => (firstsNext target).trans ?_⟩
      rw [Request.first?_concat, Request.first?_concat, firsts]

/-- Where requests have led, some of which were granted. -/
structure Enlists (requests granted : List Request) (now : Engine) : Prop where
  /-- The first request for each target is granted. -/
  first : ∀ target, Request.first? granted target = Request.first? requests target
  /-- There is one redirection for each target, of the kind of its first request and with the queue
  of the requests for it that were granted. -/
  redirects : now.redirects.redirects = (firstsBy Request.target granted).map fun first =>
    ⟨first.target, first.kind, Request.queue (Request.about first.target granted)⟩
  found : ∀ target redirect, now.redirects.get? target = some redirect ↔
    ∃ first, Request.first? requests target = some first ∧
      redirect = ⟨target, first.kind, Request.queue (Request.about target granted)⟩
  /-- A request is granted unless its target has another kind. -/
  grants : ∀ next : Request, (now.enlist next).1 = .ok () ↔
    ∀ first, Request.first? requests next.target = some first → first.kind = next.kind
  /-- A request of another kind is refused and leaves the engine as it is. -/
  refuses : ∀ next first : Request, Request.first? requests next.target = some first →
    first.kind ≠ next.kind →
      now.enlist next =
        (.error (.configuration
          (.mixedRedirect next.target.text first.kind next.kind next.handler.text)), now)
  /-- A handler that is queued already is granted again, with either flag, and nothing changes. -/
  again : ∀ request ∈ granted, ∀ earliest,
    now.enlist { request with earliest } = (.ok (), now)

/-- Requests for handlers of any targets make one redirection for each target, of the kind of its
first request.  Requests of another kind are refused and leave no trace.  The queue of a target has
the handlers that were granted, each once and as it was first asked for: those that asked to be
earliest in reverse order, and then the others in their order. -/
theorem enlists_enlistAll (engine : Engine) (unredirected : engine.redirects = .empty)
    (requests : List Request) :
    Enlists requests (engine.enlistAll requests).1 (engine.enlistAll requests).2 := by
  obtain ⟨queues, first⟩ := queues_enlistAll unredirected requests
  generalize engine.enlistAll requests = outcome at queues first
  obtain ⟨granted, now⟩ := outcome
  dsimp only at queues first ⊢
  constructor
  case first => exact first
  case redirects => exact congrArg RedirectRegistry.redirects queues.redirects_eq
  case found =>
    intro target redirect
    rw [queues.redirects_eq, Request.get?_registry, first, Option.map_eq_some_iff]
    refine exists_congr fun opening => and_congr_right fun opens => ?_
    rw [← (Request.target_of_first? opens).2]
    exact eq_comm
  case grants =>
    intro next
    simp only [← first]
    constructor
    · intro granting opening opens
      by_contra differs
      rw [queues.enlist_eq_error opens differs] at granting
      cases granting
    · intro agrees
      rw [queues.enlist_eq_ok agrees]
  case refuses =>
    intro next opening opens differs
    rw [← first] at opens
    exact queues.enlist_eq_error opens differs
  case again => exact fun request member earliest => queues.enlist_again member earliest

/-- A method that sends. -/
def sending : Target :=
  ⟨⟨some ⟨"a/B", "send", ⟨[], .void⟩⟩, none, none, by decide⟩, by decide⟩

/-- A request for a handler of this method. -/
def sendingTo (name : String) (kind : RedirectKind) (earliest : Bool) : Request :=
  ⟨sending, ⟨"h/H", name, none⟩, kind, earliest⟩

/-- Of these requests one is of another kind, and one is for a handler that is queued. -/
def mixedRequests : List Request :=
  [sendingTo "a" .replace false, sendingTo "b" .replace true, sendingTo "x" .prepend false,
    sendingTo "a" .replace true, sendingTo "c" .replace true, sendingTo "d" .replace false]

theorem enlists_enlistAll_mixed :
    let host : Engine := fresh .standard
    let outcome := host.enlistAll mixedRequests
    host.redirects = .empty ∧ Enlists mixedRequests outcome.1 outcome.2 ∧
      outcome.1 = mixedRequests.eraseIdx 2 ∧
      (outcome.2.redirects.get? sending).map Redirect.handlers =
        some (["c", "b", "a", "d"].map fun name => ⟨"h/H", name, none⟩) := by
  refine ⟨rfl, enlists_enlistAll (fresh .standard) rfl mixedRequests, ?_, ?_⟩
  · decide +kernel
  · decide +kernel

end Engine

end Weaver
