import Weaver.Proofs.Descriptor.Derived
import Weaver.Proofs.Engine.Refusal

/-!
# The attachments of events

A host attaches events to bodies, detaches them, injects them and has them join routines, in any order
and with any bodies.  What an event is attached to afterwards is decided by the operations that were
accepted: it is the body of the last attachment that no detachment follows, with one injection for
each time that the event was injected or joined a routine since then.  The body of an injection only
has the text of that body, so its signature is the same where texts tell signatures apart, and nothing
tells whether both are static.
-/

namespace Weaver

namespace Attachment

/-- The attachment to a body after some injections. -/
def held (body : Body) (injections : Nat) : Attachment := { ofBody body with injections }

/-- The attachment holds what injected code takes from this body. -/
structure Describes (attachment : Attachment) (body : Body) : Prop where
  method_eq : attachment.method = body.text
  signature_eq : attachment.signature = body.signature
  returnType_eq : attachment.returnType = body.signature.ret
  wrapper_eq : attachment.wrapper = .forReturn body.signature.ret
  isStatic_eq : attachment.isStatic = body.isStatic

/-- Of a body with the same text an attachment may lack the signature and whether it is static. -/
theorem describes_held_iff {origin body : Body} {injections : Nat}
    (same : origin.text = body.text) :
    (held origin injections).Describes body ↔
      origin.signature = body.signature ∧ origin.isStatic = body.isStatic := by
  constructor
  · exact fun describes => ⟨describes.signature_eq, describes.isStatic_eq⟩
  · rintro ⟨signatureEq, isStaticEq⟩
    have retEq : origin.signature.ret = body.signature.ret := by rw [signatureEq]
    exact
      { method_eq := same
        signature_eq := signatureEq
        returnType_eq := retEq
        wrapper_eq := congrArg Wrapper.forReturn retEq
        isStatic_eq := isStaticEq }

end Attachment

/-- The text of a body has no parenthesis before its signature, which consists of proper types. -/
structure Body.Plain (body : Body) : Prop where
  owner : '(' ∉ body.owner.toList
  name : '(' ∉ body.name.toList
  typed : body.signature.Typed

theorem Body.Plain.dropWhile_text {body : Body} (plain : body.Plain) :
    body.text.toList.dropWhile (· ≠ '(') = body.signature.text.toList := by
  have before : ∀ c ∈ body.owner.toList ++ ".".toList ++ body.name.toList,
      decide (c ≠ '(') = true := by
    intro c member
    apply decide_eq_true
    rintro rfl
    rcases List.mem_append.mp member with front | inName
    · rcases List.mem_append.mp front with inOwner | dot
      · exact plain.owner inOwner
      · exact absurd dot (by decide)
    · exact plain.name inName
  have textEq : body.text.toList =
      body.owner.toList ++ ".".toList ++ body.name.toList ++ body.signature.text.toList := by
    simp [text, MethodRef.text, ref]
  rw [textEq, List.dropWhile_append_of_pos before, Descriptor.Cursor.toList_text_signature,
    List.dropWhile_cons_of_neg (by decide)]

theorem Body.Plain.signature_eq {first second : Body} (plain : first.Plain)
    (otherPlain : second.Plain) (same : first.text = second.text) :
    first.signature = second.signature := by
  apply plain.typed.eq_of_text_eq otherPlain.typed
  apply String.toList_inj.mp
  rw [← plain.dropWhile_text, ← otherPlain.dropWhile_text, same]

namespace Engine

/-- An operation of a host on the attachment of an event. -/
inductive Handling where
  | attach (id : EventId) (body : Body)
  | detach (id : EventId)
  | inject (id : EventId) (body : Body) (index : Nat) (cancellable : Bool)
  | join (routine : RoutineId) (id : EventId)

namespace Handling

/-- The event that is handled. -/
def event : Handling → EventId
  | .attach id _ | .detach id | .inject id .. | .join _ id => id

/-- Whether an operation injects the event, by code of its own or by a routine of another. -/
def injects : Handling → Bool
  | .inject .. | .join .. => true
  | .attach .. | .detach _ => false

/-- What becomes of the attachment when the operation is accepted. -/
def effect (present : Option Attachment) : Handling → Option Attachment
  | .attach _ body => some (.ofBody body)
  | .detach _ => none
  | .inject .. | .join .. => present.map Attachment.count

theorem effect_of_injects {handling : Handling} (injects : handling.injects = true)
    (present : Option Attachment) : handling.effect present = present.map Attachment.count := by
  cases handling with
  | attach => cases injects
  | detach => cases injects
  | inject => rfl
  | join => rfl

end Handling

/-- Perform an operation; whether it was accepted, and the engine after it. -/
def handle (engine : Engine) : Handling → Except Error Unit × Engine
  | .attach id body => engine.attach id body
  | .detach id => engine.detach id
  | .inject id body index cancellable =>
      let (result, next, _) := engine.inject id body index cancellable
      (result.map fun _ => (), next)
  | .join routine id => engine.join routine id

/-- Perform operations one after the other; those that were accepted, and the engine after all. -/
def handleAll (engine : Engine) : List Handling → List Handling × Engine
  | [] => ([], engine)
  | handling :: later =>
      match engine.handle handling with
      | (.error _, next) => next.handleAll later
      | (.ok _, next) => (handling :: (next.handleAll later).1, (next.handleAll later).2)

/-- The event was attached to the body by an operation that was accepted, and since then it was only
injected, among the `later` operations. -/
def HeldSince (id : EventId) (accepted : List Handling) (body : Body) (later : List Handling) :
    Prop :=
  (∃ front, accepted = front ++ .attach id body :: later) ∧
    ∀ handling ∈ later, handling.event = id → handling.injects = true

/-- How often an event was injected by some operations. -/
def injectionsOf (id : EventId) (accepted : List Handling) : Nat :=
  accepted.countP fun handling => handling.event = id && handling.injects

/-- The attachment that operations leave to an event: to the body that holds it, with one injection for
each of those that were accepted since. -/
def HeldAs (id : EventId) (accepted : List Handling) (attachment : Attachment) : Prop :=
  ∃ body later, HeldSince id accepted body later ∧
    attachment = .held body (injectionsOf id later)

variable {engine next : Engine} {id : EventId} {body : Body}

theorem attach_isOk_iff :
    (engine.attach id body).1 = .ok () ↔ (engine.events.get id).attachment = none := by
  unfold attach Loom.attach Event.attach
  cases present : (engine.events.get id).attachment <;> simp [loom, present]

theorem detach_isOk_iff :
    (engine.detach id).1 = .ok () ↔ (engine.events.get id).attachment ≠ none := by
  unfold detach Loom.detach Event.detach
  cases present : (engine.events.get id).attachment <;> simp [loom, present]

/-- An operation that fails leaves the events, and one that is accepted changes the attachment of its
event alone. -/
theorem handle_cases (engine : Engine) (handling : Handling) :
    (∃ error, (engine.handle handling).1 = .error error ∧
        (engine.handle handling).2.events = engine.events) ∨
      (engine.handle handling).1 = .ok () ∧
        (engine.handle handling).2.events = engine.events.put handling.event
          { engine.events.get handling.event with
            attachment := handling.effect (engine.events.get handling.event).attachment } := by
  cases handling with
  | attach id body =>
      dsimp only [handle, attach]
      cases present : (engine.events.get id).attachment with
      | none =>
          rw [@Loom.attach_of_idle (engine.loom body) id present]
          exact .inr ⟨rfl, rfl⟩
      | some attachment =>
          rw [@Loom.attach_of_attached (engine.loom body) id attachment present]
          exact .inl ⟨_, rfl, rfl⟩
  | detach id =>
      dsimp only [handle, detach]
      cases present : (engine.events.get id).attachment with
      | none =>
          rw [@Loom.detach_of_idle (engine.loom default) id present]
          exact .inl ⟨_, rfl, rfl⟩
      | some attachment =>
          rw [@Loom.detach_of_attached (engine.loom default) id attachment present]
          exact .inr ⟨rfl, rfl⟩
  | inject id body index cancellable =>
      dsimp only [handle, inject]
      rcases injected : (engine.loom body).inject id index cancellable with ⟨result, after⟩
      cases result with
      | error error =>
          refine .inl ⟨error, rfl, ?_⟩
          obtain ⟨-, rfl⟩ | ⟨_, _, _, _, _, _, eventsEq, _⟩ := Loom.refused_of_inject injected
          · rfl
          · exact eventsEq
      | ok routine =>
          obtain ⟨_, _, _, _, _, eventsEq, _⟩ := Loom.exists_of_inject injected
          exact .inr ⟨rfl, eventsEq⟩
  | join routine id =>
      dsimp only [handle, join]
      rcases joined : (engine.loom default).join routine id with ⟨error | _, after⟩
      · rw [Loom.eq_of_join_error joined]
        exact .inl ⟨error, rfl, rfl⟩
      · rw [Loom.eq_of_join joined]
        exact .inr ⟨rfl, rfl⟩

/-- What an event is attached to after operations that were accepted. -/
def attachmentAfter (id : EventId) (present : Option Attachment) (accepted : List Handling) :
    Option Attachment :=
  accepted.foldl (fun present handling =>
    if handling.event = id then handling.effect present else present) present

/-- The operations that are accepted decide what an event is attached to. -/
theorem attachment_handleAll (inStore : id.index < engine.events.events.size)
    (handlings : List Handling) :
    id.index < (engine.handleAll handlings).2.events.events.size ∧
    ((engine.handleAll handlings).2.events.get id).attachment =
      attachmentAfter id (engine.events.get id).attachment (engine.handleAll handlings).1 := by
  induction handlings generalizing engine with
  | nil => exact ⟨inStore, rfl⟩
  | cons handling later ih =>
      rw [handleAll]
      rcases done : engine.handle handling with ⟨result, next⟩
      have outcome := engine.handle_cases handling
      rw [done] at outcome
      rcases outcome with ⟨error, rfl, eventsEq⟩ | ⟨rfl, eventsEq⟩
      · dsimp only at eventsEq ⊢
        rw [← eventsEq] at inStore ⊢
        exact ih inStore
      · dsimp only at eventsEq ⊢
        have inNext : id.index < next.events.events.size := by
          rw [eventsEq, EventStore.size_put]
          exact inStore
        refine ⟨(ih inNext).1, (ih inNext).2.trans ?_⟩
        rw [attachmentAfter, attachmentAfter, List.foldl_cons]
        congr 1
        rw [eventsEq, EventStore.get_put]
        by_cases same : handling.event = id
        · subst same
          rw [if_pos ⟨rfl, inStore⟩, if_pos rfl]
        · rw [if_neg fun here => same here.1.symm, if_neg same]

/-- The last operation attaches the event, or only injects it if it is about the event at all. -/
theorem heldSince_concat {accepted later : List Handling} {last : Handling} :
    HeldSince id (accepted ++ [last]) body later ↔
      (later = [] ∧ last = .attach id body) ∨
        ∃ before, later = before ++ [last] ∧ HeldSince id accepted body before ∧
          (last.event = id → last.injects = true) := by
  constructor
  · rintro ⟨⟨front, split⟩, only⟩
    rcases List.eq_nil_or_concat' later with rfl | ⟨before, final, rfl⟩
    · obtain ⟨-, lastEq⟩ := List.append_inj' split rfl
      exact .inl ⟨rfl, List.singleton_injective lastEq⟩
    · rw [← List.cons_append, ← List.append_assoc] at split
      obtain ⟨acceptedEq, lastEq⟩ := List.append_inj' split rfl
      obtain rfl := List.singleton_injective lastEq
      obtain ⟨onlyBefore, onlyLast⟩ := List.forall_mem_append.mp only
      exact .inr ⟨before, rfl, ⟨⟨front, acceptedEq⟩, onlyBefore⟩,
        onlyLast last List.mem_cons_self⟩
  · rintro (⟨rfl, rfl⟩ | ⟨before, rfl, ⟨⟨front, rfl⟩, onlyBefore⟩, onlyLast⟩)
    · exact ⟨⟨accepted, rfl⟩, List.forall_mem_nil _⟩
    · refine ⟨⟨front, by simp⟩, List.forall_mem_append.mpr ⟨onlyBefore, ?_⟩⟩
      intro handling member
      rw [List.mem_singleton.mp member]
      exact onlyLast

theorem injectionsOf_concat (id : EventId) (later : List Handling) (last : Handling) :
    injectionsOf id (later ++ [last]) =
      injectionsOf id later + if last.event = id ∧ last.injects = true then 1 else 0 := by
  rw [injectionsOf, List.countP_append, ← injectionsOf, List.countP_singleton]
  simp only [Bool.and_eq_true, decide_eq_true_eq]

section HeldAs

variable {accepted : List Handling} {last : Handling} {attachment : Attachment}

theorem heldAs_concat_of_ne (apart : last.event ≠ id) :
    HeldAs id (accepted ++ [last]) attachment ↔ HeldAs id accepted attachment := by
  have sameCount : ∀ later, injectionsOf id (later ++ [last]) = injectionsOf id later := by
    intro later
    rw [injectionsOf_concat, if_neg fun about => apart about.1, Nat.add_zero]
  simp only [HeldAs, heldSince_concat]
  constructor
  · rintro ⟨body, later, ⟨_, rfl⟩ | ⟨before, rfl, since, _⟩, rfl⟩
    · exact absurd rfl apart
    · exact ⟨body, before, since, by rw [sameCount]⟩
  · rintro ⟨body, later, since, rfl⟩
    exact ⟨body, later ++ [last], .inr ⟨later, rfl, since, fun about => absurd about apart⟩,
      by rw [sameCount]⟩

theorem heldAs_concat_of_injects (about : last.event = id) (injects : last.injects = true) :
    HeldAs id (accepted ++ [last]) attachment ↔
      ∃ present, HeldAs id accepted present ∧ present.count = attachment := by
  have counted : ∀ body later, Attachment.held body (injectionsOf id (later ++ [last])) =
      (Attachment.held body (injectionsOf id later)).count := by
    intro body later
    rw [injectionsOf_concat, if_pos ⟨about, injects⟩]
    rfl
  simp only [HeldAs, heldSince_concat]
  constructor
  · rintro ⟨body, later, ⟨_, rfl⟩ | ⟨before, rfl, since, _⟩, rfl⟩
    · cases injects
    · exact ⟨_, ⟨body, before, since, rfl⟩, (counted body before).symm⟩
  · rintro ⟨_, ⟨body, later, since, rfl⟩, rfl⟩
    exact ⟨body, later ++ [last], .inr ⟨later, rfl, since, fun _ => injects⟩,
      (counted body later).symm⟩

theorem heldAs_concat_of_not_injects (about : last.event = id) (other : last.injects = false) :
    HeldAs id (accepted ++ [last]) attachment ↔
      ∃ body, last = .attach id body ∧ attachment = .ofBody body := by
  simp only [HeldAs, heldSince_concat]
  constructor
  · rintro ⟨body, _, ⟨rfl, lastEq⟩ | ⟨_, _, _, injects⟩, rfl⟩
    · exact ⟨body, lastEq, rfl⟩
    · exact absurd (injects about) (by rw [other]; exact Bool.false_ne_true)
  · rintro ⟨body, lastEq, rfl⟩
    exact ⟨body, [], .inl ⟨rfl, lastEq⟩, rfl⟩

/-- An event that was attached to nothing is attached as the operations that were accepted hold it. -/
theorem attachmentAfter_eq_some_iff :
    attachmentAfter id none accepted = some attachment ↔ HeldAs id accepted attachment := by
  induction accepted using List.reverseRecOn generalizing attachment with
  | nil =>
      constructor
      · nofun
      · rintro ⟨body, later, ⟨⟨front, split⟩, _⟩, _⟩
        simp at split
  | append_singleton accepted last ih =>
      have after : attachmentAfter id none (accepted ++ [last]) =
          if last.event = id then last.effect (attachmentAfter id none accepted)
          else attachmentAfter id none accepted := List.foldl_concat _ _ _ _
      rw [after]
      by_cases about : last.event = id
      · rw [if_pos about]
        cases injects : last.injects with
        | true =>
            rw [Handling.effect_of_injects injects, Option.map_eq_some_iff,
              heldAs_concat_of_injects about injects]
            simp only [ih]
        | false =>
            rw [heldAs_concat_of_not_injects about injects]
            cases last with
            | attach other body =>
                obtain rfl : other = id := about
                simp [Handling.effect, eq_comm]
            | detach other => simp [Handling.effect]
            | inject => cases injects
            | join => cases injects
      · rw [if_neg about, heldAs_concat_of_ne about, ih]

end HeldAs

/-- Where the handling of an event has led by the operations that were accepted. -/
structure Tracks (id : EventId) (accepted : List Handling) (now : Engine) : Prop where
  attachment : ∀ attachment,
    (now.events.get id).attachment = some attachment ↔ HeldAs id accepted attachment
  attach : ∀ body, (now.attach id body).1 = .ok () ↔ (now.events.get id).attachment = none
  detach : (now.detach id).1 = .ok () ↔ (now.events.get id).attachment ≠ none
  refused : ∀ handling error next, now.handle handling = (.error error, next) →
    next.events = now.events
  /-- Code is made from the attachment to the body that holds the event, which has the text of the
  body of the injection. -/
  injected : ∀ body index cancellable routine next after,
    now.inject id body index cancellable = (.ok routine, next, after) →
      ∃ origin later report, HeldSince id accepted origin later ∧ origin.text = body.text ∧
        (Splice.mk (now.events.get id).name (.held origin (injectionsOf id later)) cancellable).apply
          body index (next.proxies.get routine).ref = (.ok report, after) ∧
        (next.proxies.get routine).signature =
          Routine.signatureFor (.forReturn origin.signature.ret) body ∧
        ((Attachment.held origin (injectionsOf id later)).Describes body ↔
          origin.signature = body.signature ∧ origin.isStatic = body.isStatic) ∧
        (origin.Plain → body.Plain →
          ((Attachment.held origin (injectionsOf id later)).Describes body ↔
            origin.isStatic = body.isStatic))

/-- The attachment of an event follows the operations that were accepted, whatever else was asked for,
and an injection into a plain body finds it described unless one of the two bodies is static and the
other is not. -/
theorem tracks_handleAll (engine : Engine) (id : EventId)
    (inStore : id.index < engine.events.events.size)
    (unattached : (engine.events.get id).attachment = none) (handlings : List Handling) :
    Tracks id (engine.handleAll handlings).1 (engine.handleAll handlings).2 := by
  have attachmentIff : ∀ attachment,
      ((engine.handleAll handlings).2.events.get id).attachment = some attachment ↔
        HeldAs id (engine.handleAll handlings).1 attachment := by
    intro attachment
    rw [(attachment_handleAll inStore handlings).2, unattached, attachmentAfter_eq_some_iff]
  generalize engine.handleAll handlings = outcome at attachmentIff
  obtain ⟨accepted, now⟩ := outcome
  dsimp only at attachmentIff ⊢
  constructor
  case attachment => exact attachmentIff
  case attach => exact fun body => attach_isOk_iff
  case detach => exact detach_isOk_iff
  case refused =>
    intro handling error next failed
    have outcome := now.handle_cases handling
    rw [failed] at outcome
    obtain ⟨_, _, eventsEq⟩ | ⟨⟨⟩, _⟩ := outcome
    exact eventsEq
  case injected =>
    intro body index cancellable routine next after injected
    rcases done : (now.loom body).inject id index cancellable with ⟨result, loom⟩
    rw [inject, done] at injected
    cases injected
    obtain ⟨attachment, attachedTo⟩ := Loom.attachedTo_of_inject done
    obtain ⟨attached, methodEq⟩ := Event.attachedTo_eq_ok_iff.mp attachedTo
    obtain ⟨origin, later, holds, rfl⟩ := (attachmentIff attachment).mp attached
    obtain ⟨⟨report, applied⟩, signatureEq⟩ := Loom.apply_of_inject attached done
    have textEq : origin.text = body.text := methodEq
    refine ⟨origin, later, report, holds, textEq, applied, signatureEq,
      Attachment.describes_held_iff textEq, fun plain bodyPlain => ?_⟩
    rw [Attachment.describes_held_iff textEq]
    exact and_iff_right (plain.signature_eq bodyPlain textEq)

/-- The method that returns at once with a receiver. -/
def returningInstance : Body :=
  { Body.ofNames "a/B" "m" ⟨[], .void⟩ ⟨1⟩ with code := .ofList [.ret none] }

/-- A second attachment is refused, and the injection into the body that holds the event counts. -/
theorem tracks_handleAll_returning :
    let host := hostOf twoEvents []
    let outcome := host.handleAll [.attach ⟨0⟩ returningInstance, .attach ⟨0⟩ returning,
      .inject ⟨0⟩ returningInstance 0 false]
    (⟨0⟩ : EventId).index < host.events.events.size ∧ (host.events.get ⟨0⟩).attachment = none ∧
      Tracks ⟨0⟩ outcome.1 outcome.2 ∧
      (outcome.2.events.get ⟨0⟩).attachment = some (.held returningInstance 1) := by
  refine ⟨by decide, by decide, tracks_handleAll (hostOf twoEvents []) ⟨0⟩ (by decide) (by decide) _,
    ?_⟩
  cbv

/-- An event that is attached to an instance method is injected into a static one of the same text. -/
theorem not_always_described :
    ¬ ∀ (handlings : List Handling) (id : EventId) (body after : Body) (index : Nat)
      (cancellable : Bool) (routine : RoutineId) (next : Engine) (attachment : Attachment),
      let now := ((hostOf twoEvents []).handleAll handlings).2
      now.inject id body index cancellable = (.ok routine, next, after) →
        (now.events.get id).attachment = some attachment → attachment.Describes body := by
  intro always
  let now := ((hostOf twoEvents []).handleAll [.attach ⟨0⟩ returningInstance]).2
  have accepted : (now.inject ⟨0⟩ returning 0 false).1 = .ok ⟨1⟩ := by cbv
  have attached : (now.events.get ⟨0⟩).attachment = some (.held returningInstance 0) := by cbv
  have describes := always [.attach ⟨0⟩ returningInstance] ⟨0⟩ returning
    (now.inject ⟨0⟩ returning 0 false).2.2 0 false ⟨1⟩ (now.inject ⟨0⟩ returning 0 false).2.1
    (.held returningInstance 0) (Prod.ext accepted rfl) attached
  exact absurd describes.isStatic_eq (by decide)

end Engine

end Weaver
