import Weaver.Proofs.Machine.Depth
import Weaver.Proofs.Splice.Lockstep

/-!
# Instructions beyond what a body declares

An instruction that goes beyond the declared locals, or that pops more than a stack can hold, fails in
the body and in the woven code alike.
-/

namespace Weaver.Machine

/-- The result is no fault that goes beyond declared bounds. -/
def Contained {α : Type} (result : Except Fault α) : Prop :=
  ∀ fault, result = .error fault → fault.exceeds = false

namespace Contained

variable {α β γ : Type} {result : Except Fault α}

theorem bind {next : α → Except Fault γ} (contained : Contained result)
    (continuation : ∀ value, Contained (next value)) : Contained (result >>= next) := by
  cases result with
  | error fault =>
      rintro later ⟨⟩
      exact contained fault rfl
  | ok value => exact continuation value

theorem eq_map {roomier : Prop} {keeps : α → Prop} {image : α → β} {other : Except Fault β}
    (contained : Contained result) (mirrors : Mirrors roomier keeps image result other) :
    other = result.map image := by
  cases result with
  | error fault =>
      rcases mirrors with ⟨_, exceeds⟩ | same
      · cases exceeds.symm.trans (contained fault rfl)
      · exact same
  | ok value => exact mirrors.1

end Contained

/-- Both results are the same fault. -/
def FailAlike {α β : Type} (result : Except Fault α) (other : Except Fault β) : Prop :=
  ∃ fault, result = .error fault ∧ other = .error fault

namespace FailAlike

variable {α β γ δ : Type} {result : Except Fault α} {other : Except Fault β}

theorem bind (alike : FailAlike result other) (next : α → Except Fault γ)
    (otherNext : β → Except Fault δ) : FailAlike (result >>= next) (other >>= otherNext) := by
  obtain ⟨fault, rfl, rfl⟩ := alike
  exact ⟨fault, rfl, rfl⟩

theorem map (alike : FailAlike result other) (change : α → γ) (otherChange : β → δ) :
    FailAlike (result.map change) (other.map otherChange) := by
  obtain ⟨fault, rfl, rfl⟩ := alike
  exact ⟨fault, rfl, rfl⟩

/-- What starts with something mirrored fails alike if what comes behind it does. -/
theorem of_mirrors {roomier : Prop} {keeps : α → Prop} {image : α → β} {next : α → Except Fault γ}
    {otherNext : β → Except Fault δ} (contained : Contained result)
    (mirrors : Mirrors roomier keeps image result other)
    (behind : ∀ value, result = .ok value → keeps value →
      FailAlike (next value) (otherNext (image value))) :
    FailAlike (result >>= next) (other >>= otherNext) := by
  have same := contained.eq_map mirrors
  cases result with
  | error fault => exact ⟨fault, rfl, by rw [same]; rfl⟩
  | ok value =>
      rw [same]
      exact behind value rfl mirrors.2

end FailAlike

theorem Fault.isBookkeeping_of_exceeds {fault : Fault} (exceeds : fault.exceeds = true) :
    fault.isBookkeeping = true := by
  cases fault with
  | stackOverflow => rfl
  | frame method cause => cases cause <;> first | rfl | cases exceeds
  | _ => cases exceeds

namespace Frame

theorem contained_pop (frame : Frame) : Contained frame.pop := by
  intro fault failed
  unfold pop popSlot at failed
  cases stackEq : frame.stack with
  | nil =>
      rw [stackEq] at failed
      cases failed
      rfl
  | cons slot rest =>
      rw [stackEq] at failed
      cases slot with
      | empty =>
          cases failed
          rfl
      | value value =>
          dsimp only at failed
          split at failed
          · cases failed
          · cases failed
            rfl
      | top =>
          cases rest with
          | nil =>
              cases failed
              rfl
          | cons lower rest =>
              cases lower with
              | value value =>
                  dsimp only at failed
                  split at failed
                  · cases failed
                  · cases failed
                    rfl
              | _ =>
                  cases failed
                  rfl

theorem contained_popKind (frame : Frame) (kind : Kind) : Contained (frame.popKind kind) := by
  rw [popKind_eq_bind]
  apply frame.contained_pop.bind
  intro popped
  split
  · rintro fault ⟨⟩
  · rintro fault ⟨⟩
    rfl

theorem contained_popTypes (frame : Frame) (types : List Ty) (popped : List Value) :
    Contained (frame.popTypes types popped) := by
  induction types generalizing frame popped with
  | nil => rintro fault ⟨⟩
  | cons type rest ih =>
      rw [popTypes_cons]
      cases type.kind? with
      | none =>
          rintro fault ⟨⟩
          rfl
      | some kind => exact (frame.contained_popKind kind).bind fun top => ih top.2 _

theorem contained_popArgs (frame : Frame) (method : MethodRef) (hasReceiver : Bool) :
    Contained (frame.popArgs method hasReceiver) := by
  rw [popArgs_eq_bind]
  apply (frame.contained_popTypes _ _).bind
  intro popped
  cases hasReceiver with
  | false => rintro fault ⟨⟩
  | true =>
      apply (popped.2.contained_popKind .reference).bind
      rintro receiver fault ⟨⟩

/-- A value that was popped was on the stack with all of its slots. -/
theorem length_of_popKind {frame : Frame} {kind : Kind} {outcome : Value × Frame}
    (popped : frame.popKind kind = .ok outcome) :
    outcome.2.stack.length + kind.slots = frame.stack.length := by
  obtain ⟨kindEq, rest, stackEq, below⟩ := popKind_eq_ok_iff.mp popped
  rw [below, stackEq, List.length_append, Value.length_cells, Value.slots, kindEq, Nat.add_comm]
  rfl

theorem length_of_popTypes {frame : Frame} {types : List Ty} {popped : List Value}
    {outcome : List Value × Frame} (poppedEq : frame.popTypes types popped = .ok outcome) :
    outcome.2.stack.length + (types.map Ty.slots).sum = frame.stack.length := by
  induction types generalizing frame popped with
  | nil =>
      cases poppedEq
      rfl
  | cons type rest ih =>
      rw [popTypes_cons] at poppedEq
      cases kindEq : type.kind? with
      | none =>
          rw [kindEq] at poppedEq
          cases poppedEq
      | some kind =>
          rw [kindEq] at poppedEq
          obtain ⟨top, topEq, laterEq⟩ := bind_eq_ok_iff.mp poppedEq
          have below := length_of_popKind topEq
          have later := ih laterEq
          have slotsEq : type.slots = kind.slots := by simp [Ty.slots, kindEq]
          rw [List.map_cons, List.sum_cons]
          omega

/-- Arguments that were popped were on the stack with all of their slots. -/
theorem slots_le_of_popArgs {frame : Frame} {method : MethodRef} {hasReceiver : Bool}
    {outcome : List Value × Frame} (poppedEq : frame.popArgs method hasReceiver = .ok outcome) :
    method.signature.totalSlots + hasReceiver.toNat ≤ frame.stack.length := by
  rw [popArgs_eq_bind] at poppedEq
  obtain ⟨args, argsEq, receiverEq⟩ := bind_eq_ok_iff.mp poppedEq
  have below := length_of_popTypes argsEq
  rw [List.map_reverse, List.sum_reverse, ← Signature.totalSlots_eq_sum] at below
  cases hasReceiver with
  | false =>
      simp only [Bool.toNat_false]
      omega
  | true =>
      obtain ⟨receiver, popped, _⟩ := bind_eq_ok_iff.mp receiverEq
      have under := length_of_popKind popped
      have one : Kind.slots .reference = 1 := rfl
      simp only [Bool.toNat_true]
      omega

variable {body woven : Body} {frame : Frame} {extra : Array Slot} {run : List Instr}
  {place : Nat → Nat} {index : Nat}

/-- Arguments with more slots than the stack holds cannot be popped. -/
theorem Executes.popArgs_beyond (executes : frame.Executes body)
    (widens : Splice.Widens body woven) {method : MethodRef} {hasReceiver : Bool}
    (beyond : frame.stack.length < method.signature.totalSlots + hasReceiver.toNat) :
    FailAlike (frame.popArgs method hasReceiver)
      ((frame.image woven extra place).popArgs method hasReceiver) := by
  have same : (frame.image woven extra place).popArgs method hasReceiver = _ :=
    (frame.contained_popArgs method hasReceiver).eq_map (executes.popArgs widens method hasReceiver)
  cases popped : frame.popArgs method hasReceiver with
  | error fault =>
      rw [popped] at same
      exact ⟨fault, rfl, same⟩
  | ok outcome => exact absurd (slots_le_of_popArgs popped) (Nat.not_le.mpr beyond)

/-- A local beyond the declared ones cannot be read or written, whatever is declared to be there. -/
theorem Executes.checkLocal_beyond (executes : frame.Executes body)
    (widens : Splice.Widens body woven) (localsEq : woven.maxLocals = body.maxLocals) {kind : Kind}
    (beyond : body.maxLocals < index + kind.slots) :
    FailAlike (frame.checkLocal kind index)
      ((frame.image woven extra place).checkLocal kind index) := by
  have outside : frame.body.maxLocals < index + kind.slots := by
    rw [executes.body_eq]
    exact beyond
  have otherLocals : (frame.image woven extra place).body.maxLocals = frame.body.maxLocals := by
    rw [executes.body_eq]
    exact localsEq
  refine ⟨frame.corrupt (.localOutOfRange index frame.body.maxLocals), if_pos outside, ?_⟩
  rw [checkLocal, otherLocals, if_pos outside, executes.corrupt widens]

theorem Executes.loadLocal_beyond (executes : frame.Executes body)
    (widens : Splice.Widens body woven) (localsEq : woven.maxLocals = body.maxLocals) {kind : Kind}
    (beyond : body.maxLocals < index + kind.slots) :
    FailAlike (frame.loadLocal kind index)
      ((frame.image woven extra place).loadLocal kind index) := by
  obtain ⟨fault, own, other⟩ := executes.checkLocal_beyond widens localsEq beyond
  exact ⟨fault, by rw [Frame.loadLocal, own], by rw [Frame.loadLocal, other]⟩

theorem Executes.storeLocal_beyond (executes : frame.Executes body)
    (widens : Splice.Widens body woven) (localsEq : woven.maxLocals = body.maxLocals)
    {value : Value} (beyond : body.maxLocals < index + value.slots) :
    FailAlike (frame.storeLocal index value)
      ((frame.image woven extra place).storeLocal index value) := by
  obtain ⟨fault, own, other⟩ := executes.checkLocal_beyond widens localsEq beyond
  exact ⟨fault, by rw [Frame.storeLocal, own], by rw [Frame.storeLocal, other]⟩

/-- An instruction that goes beyond the declared locals, or that pops more than the stack can hold,
fails with or without a run before. -/
theorem Executes.act_beyond (executes : frame.Executes body) (widens : Splice.Widens body woven)
    (localsEq : woven.maxLocals = body.maxLocals) (short : frame.stack.length ≤ slotLimit)
    {instr : Instr} (beyond : body.maxLocals < instr.localEnd ∨ slotLimit < instr.callSlots)
    (world : World) :
    ∃ fault, frame.act world instr = (.error fault, world) ∧
      (frame.image woven extra place).act world instr = (.error fault, world) := by
  -- only these instructions name locals or pop arguments
  suffices alike : ∃ result other, frame.act world instr = (result, world) ∧
      (frame.image woven extra place).act world instr = (other, world) ∧
      FailAlike result other by
    obtain ⟨_, _, ownEq, otherEq, fault, rfl, rfl⟩ := alike
    exact ⟨fault, ownEq, otherEq⟩
  cases instr with
  | load kind index =>
      have outside : body.maxLocals < index + kind.slots := by
        simpa [Instr.localEnd, Instr.callSlots] using beyond
      exact ⟨_, _, rfl, rfl,
        ((executes.loadLocal_beyond widens localsEq outside).bind _ _).map _ _⟩
  | store kind index =>
      have outside : body.maxLocals < index + kind.slots := by
        simpa [Instr.localEnd, Instr.callSlots] using beyond
      refine ⟨_, _, rfl, rfl, FailAlike.map ?_ _ _⟩
      apply FailAlike.of_mirrors (frame.contained_popKind kind) (executes.popKind widens kind)
      intro popped poppedEq below
      obtain ⟨kindEq, _⟩ := popKind_eq_ok_iff.mp poppedEq
      apply below.storeLocal_beyond widens localsEq
      rw [Value.slots, kindEq]
      exact outside
  | call mode method =>
      have many : slotLimit < method.signature.totalSlots + mode.hasReceiver.toNat := by
        simpa [Instr.localEnd, Instr.callSlots] using beyond
      exact ⟨_, _, rfl, rfl,
        (executes.popArgs_beyond widens (Nat.lt_of_le_of_lt short many)).bind _ _⟩
  | guardedCall guarded =>
      have many : slotLimit < guarded.target.signature.totalSlots + false.toNat := by
        simpa [Instr.localEnd, Instr.callSlots] using beyond
      exact ⟨_, _, rfl, rfl,
        (executes.popArgs_beyond widens (Nat.lt_of_le_of_lt short many)).map _ _⟩
  | _ => simp [Instr.localEnd, Instr.callSlots] at beyond

end Frame

end Weaver.Machine
