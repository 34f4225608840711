import Weaver.Proofs.Descriptor.Grammar
import Weaver.Proofs.Engine.Injection
import Weaver.Proofs.Redirect.Emitted

/-!
# Derived signatures

Two signatures are derived from that of a method: a dispatch routine takes the wrapper before the
parameters, and a handler the receiver if there is one.  What they add is well-formed, so that the
derived signature has a descriptor as long as the parameters leave room for it, and none beyond that.
-/

namespace Weaver

/-- The types of a signature are proper ones, however many slots the parameters take. -/
def Signature.Typed (signature : Signature) : Prop :=
  (∀ ty ∈ signature.params, ty.WellFormed ∧ ty ≠ .void) ∧ signature.ret.WellFormed

theorem Ty.wellFormed_ofClass {name : String} (named : name ≠ "") (plain : ';' ∉ name.toList) :
    (ofClass name).WellFormed := by
  refine ⟨Nat.zero_le _, fun positive => absurd positive (Nat.lt_irrefl 0), ?_⟩
  intro other same
  cases same
  have listEq : (Text.slashed name).toList =
      name.toList.map fun c => if c = '.' then '/' else c := String.toList_map
  constructor
  · intro empty
    rw [empty] at listEq
    exact named (String.toList_eq_nil_iff.mp (List.map_eq_nil_iff.mp listEq.symm))
  · rw [listEq, List.mem_map]
    rintro ⟨c, member, same⟩
    split at same
    · exact absurd same (by decide)
    · exact plain (same ▸ member)

theorem Wrapper.wellFormed_type (wrapper : Wrapper) : wrapper.type.WellFormed := by
  apply Ty.wellFormed_ofClass
  · cases wrapper <;> decide
  · cases wrapper <;> decide

namespace Signature

/-- A signature that has a descriptor: reading its text gives it back, its parameters are within the
bound, and `Listener.withSignature` gives it to listeners and handlers. -/
structure Legal (signature : Signature) : Prop where
  parse_text : parse signature.text = .ok signature
  totalSlots_le : signature.totalSlots ≤ maxParameterSlots
  declares : ∀ listener : Listener,
    listener.withSignature signature.text = .ok { listener with signature := some signature }

/-- A signature that has no descriptor: its text is refused, and `Listener.withSignature` refuses it
for every descriptor.  The field of a listener can still be set to it. -/
structure Barred (signature : Signature) : Prop where
  refused : ∃ fault, parse signature.text = .error fault
  undeclared : ∀ (listener declared : Listener) (descriptor : String),
    listener.withSignature descriptor = .ok declared → declared.signature ≠ some signature

open Descriptor.Cursor

variable {signature other : Signature}

theorem wellFormed_iff_typed :
    signature.WellFormed ↔ signature.Typed ∧ signature.totalSlots ≤ maxParameterSlots :=
  ⟨fun ⟨each, fits, ret⟩ => ⟨⟨each, ret⟩, fits⟩, fun ⟨⟨each, ret⟩, fits⟩ => ⟨each, fits, ret⟩⟩

/-- Lists of proper parameters are told apart by their texts up to the parenthesis behind them. -/
theorem params_eq_of_text_eq {first second : List Ty} {tail otherTail : List Char}
    (each : ∀ ty ∈ first, ty.WellFormed ∧ ty ≠ .void)
    (otherEach : ∀ ty ∈ second, ty.WellFormed ∧ ty ≠ .void)
    (same : (paramsText first).toList ++ ')' :: tail =
      (paramsText second).toList ++ ')' :: otherTail) : first = second := by
  -- both are what is read from this text with room enough for either
  have read : (whole "" 0 ((paramsText first).toList ++ ')' :: tail)).readParams
      (slotsOf first + slotsOf second) = (.ok first, _) :=
    readParams_eq_ok_iff.mpr ⟨each, Nat.le_add_right _ _, tail, rfl, rfl⟩
  have otherRead : (whole "" 0 ((paramsText first).toList ++ ')' :: tail)).readParams
      (slotsOf first + slotsOf second) = (.ok second, _) :=
    readParams_eq_ok_iff.mpr ⟨otherEach, Nat.le_add_left _ _, otherTail, same, rfl⟩
  exact Except.ok.inj (Prod.mk.inj (read.symm.trans otherRead)).1

/-- Signatures of proper types are told apart by their texts, those beyond the bound as well. -/
theorem Typed.eq_of_text_eq (typed : signature.Typed) (otherTyped : other.Typed)
    (same : signature.text = other.text) : signature = other := by
  have chars := congrArg String.toList same
  rw [toList_text_signature, toList_text_signature] at chars
  have behind := (List.cons.inj chars).2
  have paramsEq := params_eq_of_text_eq typed.1 otherTyped.1 behind
  rw [paramsEq] at behind
  have retText : signature.ret.text = other.ret.text :=
    String.toList_inj.mp (List.cons.inj (List.append_cancel_left behind)).2
  have retEq : signature.ret = other.ret :=
    Except.ok.inj ((Ty.parse_eq_ok_iff.mpr ⟨typed.2, retText⟩).symm.trans
      (Ty.parse_eq_ok_iff.mpr ⟨otherTyped.2, rfl⟩))
  calc
    signature = ⟨signature.params, signature.ret⟩ := rfl
    _ = ⟨other.params, other.ret⟩ := by rw [paramsEq, retEq]
    _ = other := rfl

theorem Typed.legal (typed : signature.Typed) (room : signature.totalSlots ≤ maxParameterSlots) :
    signature.Legal := by
  have parsed := parse_eq_ok_iff.mpr ⟨wellFormed_iff_typed.mpr ⟨typed, room⟩, rfl⟩
  refine ⟨parsed, room, fun listener => ?_⟩
  rw [Listener.withSignature, parsed]

theorem Typed.barred (typed : signature.Typed) (beyond : maxParameterSlots < signature.totalSlots) :
    signature.Barred := by
  have unread : ∀ descriptor, parse descriptor ≠ .ok signature := fun descriptor parsed =>
    absurd (parse_eq_ok_iff.mp parsed).1.2.1 (Nat.not_le_of_lt beyond)
  constructor
  · cases parsed : parse signature.text with
    | error fault => exact ⟨fault, rfl⟩
    | ok other =>
        obtain ⟨wellFormed, same⟩ := parse_eq_ok_iff.mp parsed
        obtain rfl := typed.eq_of_text_eq (wellFormed_iff_typed.mp wellFormed).1 same.symm
        exact absurd parsed (unread _)
  · intro listener declared descriptor declaring same
    unfold Listener.withSignature at declaring
    split at declaring
    · cases declaring
    · rename_i found parsed
      cases declaring
      cases same
      exact unread _ parsed

/-- A signature of proper types is legal exactly within the bound, and barred beyond it. -/
theorem Typed.legal_iff (typed : signature.Typed) {slots : Nat}
    (slotsEq : signature.totalSlots = slots) :
    (signature.Legal ↔ slots ≤ maxParameterSlots) ∧
      (signature.Barred ↔ maxParameterSlots < slots) := by
  subst slotsEq
  have apart : signature.Legal → ¬ signature.Barred := by
    intro legal ⟨⟨fault, refused⟩, _⟩
    cases legal.parse_text.symm.trans refused
  refine ⟨⟨Legal.totalSlots_le, typed.legal⟩, fun barred => ?_, typed.barred⟩
  exact Nat.lt_of_not_le fun room => apart (typed.legal room) barred

end Signature

theorem Ty.wellFormed_void : Ty.WellFormed .void := by
  simp [WellFormed, dimensions, innermost]

theorem Routine.typed_signatureFor {body : Body} (typed : body.signature.Typed)
    (wrapper : Wrapper) : (signatureFor wrapper body).Typed :=
  ⟨List.forall_mem_cons.mpr ⟨⟨wrapper.wellFormed_type, nofun⟩, typed.1⟩, Ty.wellFormed_void⟩

theorem Routine.totalSlots_signatureFor (wrapper : Wrapper) (body : Body) :
    (signatureFor wrapper body).totalSlots = 1 + body.signature.totalSlots := rfl

/-- The types of a handler are the class of the receiver, if there is one, and those of the method. -/
theorem Redirect.typed_handlerSignature {body : Body} (typed : body.signature.Typed)
    (named : body.owner ≠ "") (plain : ';' ∉ body.owner.toList) :
    (handlerSignature body).Typed := by
  refine ⟨List.forall_mem_append.mpr ⟨?_, typed.1⟩, typed.2⟩
  cases body.isStatic with
  | true => exact List.forall_mem_nil _
  | false => exact List.forall_mem_singleton.mpr ⟨Ty.wellFormed_ofClass named plain, nofun⟩

namespace Signature

/-- The signatures that are derived from a legal one are legal as long as the slot in front of the
parameters is within the bound: that of the routine allocated for a site, in any arena, if the
parameters leave one slot, and that of the handlers of a redirection if the receiver and the parameters
are within the bound.  Beyond it the derived signature is barred: its text is refused, and no descriptor
gives it to a listener or handler. -/
theorem derived_legal_iff (source : String) (body : Body)
    (accepted : parse source = .ok body.signature) (named : body.owner ≠ "")
    (plain : ';' ∉ body.owner.toList) :
    (∀ (arena : Arena) (wrapper : Wrapper) (site : Nat) (cancellable : Bool), ∃ routine : Routine,
      (arena.allocate body wrapper site cancellable).1 = routine.id ∧
      (arena.allocate body wrapper site cancellable).2.get routine.id = routine ∧
      routine.Serves body wrapper site cancellable ∧
      (routine.signature.Legal ↔ 1 + body.signature.totalSlots ≤ maxParameterSlots) ∧
      (routine.signature.Barred ↔ maxParameterSlots < 1 + body.signature.totalSlots)) ∧
    ((Redirect.handlerSignature body).Legal ↔
      body.firstArgSlot + body.signature.totalSlots ≤ maxParameterSlots) ∧
    ((Redirect.handlerSignature body).Barred ↔
      maxParameterSlots < body.firstArgSlot + body.signature.totalSlots) := by
  have typed := (wellFormed_iff_typed.mp (parse_eq_ok_iff.mp accepted).1).1
  refine ⟨fun arena wrapper site cancellable => ?_, ?_⟩
  · obtain ⟨routine, idEq, adds, serves, _⟩ :=
      arena.exists_adds_allocate body wrapper site cancellable
    refine ⟨routine, idEq, adds.get_self, serves, ?_⟩
    rw [serves.signature_eq]
    exact (Routine.typed_signatureFor typed wrapper).legal_iff
      (Routine.totalSlots_signatureFor wrapper body)
  · exact (Redirect.typed_handlerSignature typed named plain).legal_iff
      body.totalSlots_handlerSignature

/-- An instance method with a number of parameters of one type. -/
def uniform (ty : Ty) (count : Nat) : Body :=
  ⟨"a/B", "m", ⟨List.replicate count ty, .void⟩, ⟨1⟩, .empty, 0, 0⟩

theorem typed_uniform {ty : Ty} (proper : ty.WellFormed) (solid : ty ≠ .void) (count : Nat) :
    (uniform ty count).signature.Typed :=
  ⟨fun _ member => (List.eq_of_mem_replicate member) ▸ ⟨proper, solid⟩, Ty.wellFormed_void⟩

theorem totalSlots_uniform (ty : Ty) (count : Nat) :
    (uniform ty count).signature.totalSlots = count * ty.slots :=
  totalSlots_replicate count ty .void

theorem named_uniform (ty : Ty) (count : Nat) : (uniform ty count).owner ≠ "" := by
  simp [uniform]

theorem plain_uniform (ty : Ty) (count : Nat) : ';' ∉ (uniform ty count).owner.toList := by
  simp [uniform]

theorem typed_longs : (uniform .long 127).signature.Typed :=
  typed_uniform (by simp [Ty.WellFormed, Ty.dimensions, Ty.innermost]) (by decide) 127

theorem typed_ints : (uniform .int 255).signature.Typed :=
  typed_uniform (by simp [Ty.WellFormed, Ty.dimensions, Ty.innermost]) (by decide) 255

theorem totalSlots_longs : (uniform .long 127).signature.totalSlots = 254 :=
  totalSlots_uniform .long 127

theorem totalSlots_ints : (uniform .int 255).signature.totalSlots = 255 :=
  totalSlots_uniform .int 255

/-- As many long parameters as a descriptor may have leave the slot in front of them. -/
theorem derived_legal_iff_longs :
    parse (uniform .long 127).signature.text = .ok (uniform .long 127).signature ∧
      (uniform .long 127).owner ≠ "" ∧ ';' ∉ (uniform .long 127).owner.toList ∧
      (Redirect.handlerSignature (uniform .long 127)).Legal ∧
      ∃ routine, ((Arena.ofSettings .standard).allocate (uniform .long 127) .plain 3 true).2.get
          ⟨1⟩ = routine ∧ routine.site = 3 ∧ routine.signature.Legal := by
  have accepted : parse (uniform .long 127).signature.text = .ok (uniform .long 127).signature :=
    (typed_longs.legal (by rw [totalSlots_longs]; decide)).parse_text
  obtain ⟨routines, handlers, _⟩ := derived_legal_iff (uniform .long 127).signature.text
    (uniform .long 127) accepted (named_uniform _ _) (plain_uniform _ _)
  obtain ⟨routine, idEq, found, serves, legal, _⟩ := routines (.ofSettings .standard) .plain 3 true
  rw [← idEq] at found
  rw [totalSlots_longs] at handlers legal
  exact ⟨accepted, named_uniform _ _, plain_uniform _ _, handlers.mpr (by decide), routine, found,
    serves.site_eq, legal.mpr (by decide)⟩

/-- A method may take as many slots as a descriptor allows, and then neither of the signatures that are
derived from its own has a descriptor. -/
theorem not_always_legal :
    ¬ ∀ (source : String) (body : Body), parse source = .ok body.signature → body.owner ≠ "" →
      ';' ∉ body.owner.toList →
      (∀ wrapper, parse (Routine.signatureFor wrapper body).text =
        .ok (Routine.signatureFor wrapper body)) ∧
      parse (Redirect.handlerSignature body).text = .ok (Redirect.handlerSignature body) := by
  intro always
  have accepted := (typed_ints.legal (Nat.le_of_eq totalSlots_ints)).parse_text
  have both := always _ (uniform .int 255) accepted (named_uniform _ _) (plain_uniform _ _)
  have beyond : maxParameterSlots <
      (Routine.signatureFor .plain (uniform .int 255)).totalSlots := by
    rw [Routine.totalSlots_signatureFor, totalSlots_ints]
    decide
  obtain ⟨fault, refused⟩ := ((Routine.typed_signatureFor typed_ints .plain).barred beyond).refused
  cases refused.symm.trans (both.1 .plain)

end Signature

end Weaver
