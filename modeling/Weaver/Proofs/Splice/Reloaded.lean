import Weaver.Proofs.Splice.Transparent
import Weaver.Proofs.Splice.Tracked
import Weaver.Proofs.Splice.Widened

/-!
# The arguments that an injected run loads

An injected run loads the receiver and the parameters of the method from their slots when control
falls through to the site.  The body may have written into these slots before.  So each load finds
what the signature declares exactly if the stores of the body left its slot intact, and fails with a
mismatch if they did not; it never meets another fault, as the bounds of the woven body cover the run.
-/

namespace Weaver.Splice

open Run.Builder

variable {splice : Splice} {firstArgSlot : Nat} {routine : MethodRef} {slot? : Option Nat}
  {skip : Label} {offset slot : Nat} {kind : Kind}

/-- A load in front of the dispatch call, other than that of the wrapper, is that of the receiver for
the constructor, or one of the parameters. -/
theorem lead_load_cases
    (here : (splice.lead firstArgSlot slot?)[offset]? = some (.load kind slot))
    (argument : slot? ≠ some slot) :
    (offset = 3 ∧ splice.attachment.isStatic = false ∧ slot = 0 ∧ kind = .reference) ∨
      ∃ number, offset = (splice.construct ++ (slot?.map keep).getD []).length + number ∧
        (splice.attachment.signature.parameterSlots firstArgSlot)[number]? = some (slot, kind) := by
  unfold lead at here
  rw [List.getElem?_append] at here
  split at here
  · left
    rw [List.getElem?_append] at here
    split at here
    · have sourceCases : splice.source = .load kind slot →
          splice.attachment.isStatic = false ∧ slot = 0 ∧ kind = .reference := by
        intro same
        unfold source at same
        split at same
        · cases same
        · rename_i hasReceiver
          cases same
          exact ⟨by simpa using hasReceiver, rfl, rfl⟩
      match offset with
      | 3 => exact ⟨rfl, sourceCases (Option.some.inj here)⟩
      | 0 | 1 | 2 | 4 | 5 => cases here
    · cases slot? with
      | none => simp at here
      | some kept =>
          have member := List.mem_of_getElem? here
          simp [keep] at member
          exact absurd (congrArg some member.2.symm) argument
  · right
    rename_i behind
    refine ⟨offset - (splice.construct ++ (slot?.map keep).getD []).length, by omega, ?_⟩
    unfold Run.loadArgs at here
    rw [List.getElem?_map, Option.map_eq_some_iff] at here
    obtain ⟨⟨place, held⟩, found, same⟩ := here
    cases same
    exact found

/-- The depths in front of the dispatch call are covered by the peak. -/
theorem depthBehind_le_peak {last : Run.Builder}
    (emitted : empty.emitAll (splice.instrs firstArgSlot routine slot? skip) = (.ok (), last))
    (inside : offset ≤ (splice.lead firstArgSlot slot?).length) :
    depthBehind 0 ((splice.lead firstArgSlot slot?).take offset) ≤ last.peak := by
  have coherent := coherent_instrs emitted
  rw [instrs_eq] at emitted coherent
  have straight := straight_lead splice firstArgSlot slot?
  have here : ∃ instr, (splice.lead firstArgSlot slot? ++ .call .static routine ::
      splice.settle slot? skip)[offset]? = some instr ∧ instr.definition? = none := by
    rcases Nat.lt_or_eq_of_le inside with before | rfl
    · refine ⟨_, (List.getElem?_append_left before).trans (List.getElem?_eq_getElem before), ?_⟩
      exact (straight _ (List.getElem_mem before)).1
    · exact ⟨.call .static routine, by simp, rfl⟩
  obtain ⟨instr, here, unlabelled⟩ := here
  have split : splice.lead firstArgSlot slot? ++ .call .static routine ::
      splice.settle slot? skip =
        (splice.lead firstArgSlot slot?).take offset ++
          ((splice.lead firstArgSlot slot?).drop offset ++ .call .static routine ::
            splice.settle slot? skip) := by
    rw [← List.append_assoc, List.take_append_drop]
  have front : Straight ((splice.lead firstArgSlot slot?).take offset) :=
    fun instr member => straight instr (List.mem_of_mem_take member)
  have behindFront := (front.emitAll (emitAll_stage (split ▸ emitted))).1
  have covered := depth_arrival_le emitted coherent.live
    (Nat.le_of_lt (List.getElem?_eq_some_iff.mp here).1)
  rw [arrival_of_unlabelled here unlabelled] at covered
  rw [← split, List.length_take, Nat.min_eq_left inside] at behindFront
  exact behindFront ▸ covered

/-- A body into which something was injected has depths, and control comes to the site with the one
that was found there. -/
theorem Applied.balanced {body woven : Body} {index depth : Nat} {run : Run}
    (effect : Applied splice body index routine depth skip run woven) :
    Body.Balanced body.code.instrs ∧ Body.Reaches body.code.instrs index depth := by
  obtain ⟨depths, analysed, known⟩ := effect.analysed
  exact (Body.balanced_of_known analysed known).2

/-- The first parameters take no more slots than all of them. -/
theorem sum_take_slots_le (splice : Splice) (firstArgSlot number : Nat) :
    (((splice.attachment.signature.parameterSlots firstArgSlot).take number).map
      fun load => load.2.slots).sum ≤ splice.attachment.signature.totalSlots := by
  rw [← Signature.sum_parameterSlots splice.attachment.signature firstArgSlot]
  nth_rewrite 2 [← List.take_append_drop number
    (splice.attachment.signature.parameterSlots firstArgSlot)]
  rw [List.map_append, List.sum_append]
  exact Nat.le_add_right _ _

/-- The depth behind the loads of the first parameters is the number of their slots and the
wrapper. -/
theorem depthBehind_take_lead
    (few : splice.attachment.signature.totalSlots + 1 ≤ slotLimit) (firstArgSlot : Nat)
    (slot? : Option Nat) (number : Nat) :
    depthBehind 0 ((splice.lead firstArgSlot slot?).take
        ((splice.construct ++ (slot?.map keep).getD []).length + number)) =
      1 + (((splice.attachment.signature.parameterSlots firstArgSlot).take number).map
        fun load => load.2.slots).sum := by
  have least := sum_take_slots_le splice firstArgSlot number
  have taken : (splice.lead firstArgSlot slot?).take
      ((splice.construct ++ (slot?.map keep).getD []).length + number) =
        splice.construct ++ (slot?.map keep).getD [] ++
          (Run.loadArgs splice.attachment.signature firstArgSlot).take number := by
    rw [lead, List.take_length_add_append]
  rw [taken, Run.loadArgs, ← List.map_take, depthBehind_append, depthBehind_kept,
    depthBehind_loads (by decide)]
  exact wrapSlots_of_le (by omega)

/-- A load has room for what it pushes. -/
theorem room_of_load {last : Run.Builder}
    (few : splice.attachment.signature.totalSlots + 1 ≤ slotLimit)
    (emitted : empty.emitAll (splice.instrs firstArgSlot routine slot? skip) = (.ok (), last))
    (here : (splice.lead firstArgSlot slot?)[offset]? = some (.load kind slot))
    (argument : slot? ≠ some slot) :
    depthBehind 0 ((splice.lead firstArgSlot slot?).take offset) + kind.slots ≤ last.peak := by
  have inside := (List.getElem?_eq_some_iff.mp here).1
  have covered := depthBehind_le_peak emitted inside
  rcases lead_load_cases here argument with ⟨rfl, _, rfl, rfl⟩ | ⟨number, rfl, atNumber⟩
  · rw [List.take_add_one, here, depthBehind_append] at covered
    exact covered
  · rw [Nat.succ_eq_add_one, Nat.add_assoc, depthBehind_take_lead few, List.take_add_one, atNumber,
      List.map_append, List.sum_append] at covered
    rw [depthBehind_take_lead few, Nat.add_assoc]
    exact covered

end Weaver.Splice

namespace Weaver.Machine

open Splice Body Run.Builder

/-- The values of parameters lie in the slots of the layout. -/
theorem Holds.of_mem_layout {locals : Array Slot} {types : List Ty} {values : List Value}
    {first slot : Nat} {kind : Kind}
    (kindsEq : types.map Ty.kind? = values.map fun value => some value.kind)
    (holds : Holds locals first values) (narrow : first + (values.map Value.slots).sum ≤ slotLimit)
    (member : (slot, kind) ∈ Signature.layout first types) :
    (∃ value : Value, value.kind = kind ∧ locals[slot]? = some (.value value)) ∧
      slot + kind.slots ≤ first + (values.map Value.slots).sum := by
  induction types generalizing first values with
  | nil => cases member
  | cons type rest ih =>
      cases values with
      | nil => cases kindsEq
      | cons value values =>
          obtain ⟨kindEq, kindsEq⟩ := List.cons.inj kindsEq
          rw [List.map_cons, List.sum_cons] at narrow ⊢
          rw [layout_cons kindEq (by omega)] at member
          rcases List.mem_cons.mp member with same | later
          · cases same
            refine ⟨⟨value, rfl, holds.1⟩, ?_⟩
            change slot + value.slots ≤ _
            omega
          · obtain ⟨held, below⟩ := ih kindsEq holds.2 (by omega) later
            exact ⟨held, by omega⟩

namespace Interpreter

variable {interpreter : Interpreter} {other : Behaviour} {frame : Frame} {now : World}
  {last : Frame × World} {splice : Splice} {firstArgSlot offset slot : Nat} {slot? : Option Nat}
  {kind : Kind}

/-- Up to the load of an argument the run leaves the slot of the argument alone, and its stack is as
high as the run makes it. -/
theorem AdvancesBy.before_load
    (few : splice.attachment.signature.totalSlots + 1 ≤ slotLimit)
    (steps : interpreter.AdvancesBy (withWrappers other) offset (frame, now) last)
    (stretch : Stretch frame.code frame.pc (splice.lead firstArgSlot slot?))
    (here : (splice.lead firstArgSlot slot?)[offset]? = some (.load kind slot))
    (argument : slot? ≠ some slot) :
    last.1.body = frame.body ∧ last.1.code = frame.code ∧ last.1.pc = frame.pc + offset ∧
      last.1.stack.length =
        frame.stack.length + depthBehind 0 ((splice.lead firstArgSlot slot?).take offset) ∧
      last.1.locals[slot]? = frame.locals[slot]? := by
  have front := stretch
  unfold Splice.lead at front
  rcases lead_load_cases here argument with ⟨rfl, _, rfl, rfl⟩ | ⟨number, rfl, atNumber⟩
  · cases steps.of_front front.left.left
    exact ⟨rfl, rfl, rfl, rfl, rfl⟩
  · obtain ⟨kept, first, loads⟩ := steps.split
    obtain ⟨_, _, source, rfl⟩ := first.of_kept front.left
    have inside : number < (splice.attachment.signature.parameterSlots firstArgSlot).length :=
      (List.getElem?_eq_some_iff.mp atNumber).1
    have parts := List.take_append_drop number
      (splice.attachment.signature.parameterSlots firstArgSlot)
    have behind := front.right
    unfold Run.loadArgs at behind
    rw [← parts, List.map_append] at behind
    have counted : number =
        ((splice.attachment.signature.parameterSlots firstArgSlot).take number).length := by
      rw [List.length_take, Nat.min_eq_left (Nat.le_of_lt inside)]
    rw [counted] at loads
    obtain ⟨cells, lengthEq, rfl⟩ := loads.of_loads behind.left
    rw [← counted]
    refine ⟨rfl, rfl, Nat.add_assoc _ _ _, ?_, ?_⟩
    · rw [depthBehind_take_lead few, ← lengthEq, List.length_append, List.length_cons]
      omega
    · cases slot? with
      | none => rfl
      | some wrapperSlot =>
          have apart : slot ≠ wrapperSlot := fun same => argument (congrArg some same.symm)
          have narrow : now.nextRef.slots = 1 := rfl
          simp only [keptLocals]
          exact getElem?_writeSlots_of_ne (by omega)

/-- A load that finds no value of its kind fails with a mismatch. -/
theorem step_of_mismatch {behaviour : Behaviour}
    (fetched : frame.code[frame.pc]? = some (.load kind slot))
    (budget : now.executed < interpreter.limits.budget)
    (inside : slot + kind.slots ≤ frame.body.maxLocals)
    (differs : ¬ ∃ value : Value, value.kind = kind ∧ frame.locals[slot]? = some (.value value)) :
    ∃ held, interpreter.step behaviour frame now =
      (.error (.frame frame.body.ref (.localMismatch slot held kind)), now.counted) := by
  have mismatch : ∃ held, Frame.loadLocal { frame with pc := frame.pc + 1 } kind slot =
      .error (.frame frame.body.ref (.localMismatch slot held kind)) := by
    refine ⟨frame.locals[slot]?.getD .empty, ?_⟩
    have within : ¬ frame.body.maxLocals < slot + kind.slots := Nat.not_lt.mpr inside
    unfold Frame.loadLocal Frame.checkLocal
    simp only [within, if_false]
    split
    · rename_i value found
      split
      · rename_i same
        refine absurd ⟨value, same, ?_⟩ differs
        cases held : frame.locals[slot]? with
        | none => simp [held] at found
        | some cell => simpa [held] using found
      · rfl
    · rfl
  obtain ⟨held, failed⟩ := mismatch
  refine ⟨held, ?_⟩
  rw [step_eq fetched, if_neg (by omega)]
  simp only [Frame.act, failed, bind, Except.bind, Except.map, finish]

end Interpreter

/-- The receiver or a parameter of the method is in the slot, and is of the kind. -/
def Argument (body : Body) (slot : Nat) (kind : Kind) : Prop :=
  body.isStatic = false ∧ slot = 0 ∧ kind = .reference ∨ (slot, kind) ∈ body.parameterSlots

/-- Arguments that lie in the locals are where the signature says. -/
theorem Takes.holds_argument {body : Body} {args : List Value} {locals : Array Slot} {slot : Nat}
    {kind : Kind} (takes : Takes body args) (holds : Holds locals 0 args)
    (narrow : body.firstArgSlot + body.signature.totalSlots ≤ slotLimit)
    (argument : Argument body slot kind) :
    (∃ value : Value, value.kind = kind ∧ locals[slot]? = some (.value value)) ∧
      slot + kind.slots ≤ body.firstArgSlot + body.signature.totalSlots := by
  have total := takes.sum_slots
  rw [← total] at narrow ⊢
  unfold Takes Body.argumentKinds at takes
  cases static : body.isStatic with
  | true =>
      rw [static] at takes
      rcases argument with ⟨isInstance, _⟩ | member
      · cases isInstance.symm.trans static
      · have first : body.firstArgSlot = 0 := by rw [Body.firstArgSlot, static]; rfl
        unfold Body.parameterSlots Signature.parameterSlots at member
        rw [first] at member
        rw [← Nat.zero_add (args.map Value.slots).sum] at narrow ⊢
        exact Holds.of_mem_layout takes.symm holds narrow member
  | false =>
      rw [static] at takes
      have first : body.firstArgSlot = 1 := by rw [Body.firstArgSlot, static]; rfl
      cases args with
      | nil => cases takes
      | cons receiver rest =>
          obtain ⟨receiverKind, params⟩ := List.cons.inj takes
          have isReference : receiver.kind = .reference := Option.some.inj receiverKind
          have one : receiver.slots = 1 := Value.slots_of_reference isReference
          rw [List.map_cons, List.sum_cons, one] at narrow ⊢
          rcases argument with ⟨_, rfl, rfl⟩ | member
          · exact ⟨⟨receiver, isReference, holds.1⟩, by simp [Kind.slots]⟩
          · unfold Body.parameterSlots Signature.parameterSlots at member
            rw [first] at member
            have behind := holds.2
            rw [one] at behind
            exact Holds.of_mem_layout params.symm behind narrow member

/-- The frame of the woven body at the same position, with more locals. -/
def Frame.beside (woven : Body) (extra : Array Slot) (frame : Frame) : Frame :=
  frame.image woven extra id

/-- A method that was entered stands at its first instruction, with its arguments in its locals. -/
theorem Frame.of_enter {body : Body} {args : List Value} {first : Frame} (takes : Takes body args)
    (unique : Code.UniqueLabels body.code.instrs) (entered : Frame.enter body args = .ok first) :
    first.Executes body ∧ first.Stands body 0 0 ∧ Holds first.locals 0 args ∧
      body.firstArgSlot + body.signature.totalSlots ≤ body.maxLocals := by
  have inside : body.firstArgSlot + body.signature.totalSlots ≤ body.maxLocals := by
    rw [← takes.sum_slots]
    exact fits_of_enter entered
  have collected := Body.labelPositions_eq_labels unique
  obtain ⟨locals, enterEq, sizeEq, holds⟩ := Frame.enter_eq_ok takes collected inside
  cases entered.symm.trans enterEq
  exact ⟨⟨rfl, rfl, rfl, sizeEq⟩, ⟨rfl, rfl, collected, rfl, trivial, rfl⟩, holds, inside⟩

namespace Interpreter

/-- The next instruction pushes a value of the kind. -/
def Loads (interpreter : Interpreter) (behaviour : Behaviour) (kind : Kind) (now : Frame × World) :
    Prop :=
  ∃ value : Value, value.kind = kind ∧
    interpreter.Advances behaviour now
      (now.1.behind (value.cells ++ now.1.stack), now.2.counted)

/-- The next instruction fails in the method, as its local holds no value of the kind. -/
def Mismatches (interpreter : Interpreter) (behaviour : Behaviour) (method : MethodRef) (slot : Nat)
    (kind : Kind) (now : Frame × World) : Prop :=
  ∃ held, interpreter.step behaviour now.1 now.2 =
    (.error (.frame method (.localMismatch slot held kind)), now.2.counted)

/-- An instruction that calls no method and touches no field is given nothing. -/
theorem GivesDeclared.of_plain {interpreter : Interpreter} {behaviour : Behaviour} {frame : Frame}
    {world : World} {instr : Instr} (fetched : frame.code[frame.pc]? = some instr)
    (returns : instr.returns? = none) (plain : ∀ op field, instr ≠ .field op field) :
    interpreter.GivesDeclared behaviour frame world := by
  constructor
  · intro op field _ atField
    exact absurd (Option.some.inj (fetched.symm.trans atField)) (plain op field)
  · intro ret _ _ atCall
    rw [fetched, Option.bind_some, returns] at atCall
    cases atCall

variable {interpreter : Interpreter} {other : Behaviour} {splice : Splice} {body woven : Body}
  {index depth offset slot : Nat} {routine : MethodRef} {skip : Label} {run : Run} {kind : Kind}
  {args : List Value} {stores : List (Nat × Kind)} {first frame : Frame} {extra : Array Slot}
  {world : World} {now : Frame × World}

/-- A load of the run that is an argument of the method. -/
theorem argument_of_load {slot? : Option Nat}
    (signatureEq : splice.attachment.signature = body.signature)
    (staticEq : splice.attachment.isStatic = body.isStatic)
    (here : (splice.lead body.firstArgSlot slot?)[offset]? = some (.load kind slot))
    (loads : slot? ≠ some slot) : Argument body slot kind := by
  rcases lead_load_cases here loads with ⟨_, isInstance, rfl, rfl⟩ | ⟨number, _, atNumber⟩
  · exact .inl ⟨staticEq ▸ isInstance, rfl, rfl⟩
  · have found := List.mem_of_getElem? atNumber
    rw [signatureEq] at found
    exact .inr found

/-- An execution of the body that comes to the site with its arguments stored as the signature says
lets the run load them, and any other lets it fail. -/
theorem reloads_of_applied (effect : Applied splice body index routine depth skip run woven)
    (signatureEq : splice.attachment.signature = body.signature)
    (staticEq : splice.attachment.isStatic = body.isStatic)
    (slotsEq : routine.signature.totalSlots = splice.attachment.signature.totalSlots + 1)
    (narrow : body.maxStack ≤ slotLimit) (takes : Takes body args) (entered : Frame.enter body args = .ok first)
    (executed : interpreter.Stores (withWrappers other) stores first frame)
    (atSite : frame.pc = index) (sizeEq : body.maxLocals + extra.size = woven.maxLocals)
    (here : (splice.lead body.firstArgSlot (splice.wrapperLocal? body))[offset]? =
      some (.load kind slot))
    (loads : splice.wrapperLocal? body ≠ some slot)
    (steps : interpreter.AdvancesBy (withWrappers other) offset (frame.beside woven extra, world)
      now)
    (budget : now.2.executed < interpreter.limits.budget) :
    (Intact slot kind stores → interpreter.Loads (withWrappers other) kind now) ∧
      (¬ Intact slot kind stores →
        interpreter.Mismatches (withWrappers other) body.ref slot kind now) := by
  obtain ⟨balanced, reachesSite⟩ := effect.balanced
  obtain ⟨executesFirst, standsFirst, holds, fits⟩ := Frame.of_enter takes balanced.labels entered
  -- The body comes to the site with the stack that the analysis found there.
  obtain ⟨executes, _, ⟨position, height, reached, stands⟩, _⟩ :=
    executed.stands executesFirst standsFirst narrow balanced
  obtain rfl : position = index := stands.pc_eq.symm.trans atSite
  obtain rfl : height = depth := balanced.agree reached reachesSite
  -- Its arguments are in their slots as far as the stores left them intact.
  have argument := argument_of_load signatureEq staticEq here loads
  have firstLe : body.firstArgSlot ≤ 1 := Bool.toNat_le _
  have declared : body.maxLocals ≤ slotLimit :=
    effect.inserted.locals_le.trans (effect.maxLocals_eq.trans_le effect.declarable)
  have few : splice.attachment.signature.totalSlots + 1 ≤ slotLimit :=
    effect.counted slotsEq (by rw [signatureEq]; omega)
  obtain ⟨held, below⟩ := takes.holds_argument holds (fits.trans declared) argument
  obtain ⟨_, intactIff⟩ := executed.holds_iff held
  -- The run comes to the load with the slot as the body left it, and with room for the value.
  have wovenExecutes : (frame.beside woven extra).Executes woven := by
    refine ⟨rfl, rfl, rfl, ?_⟩
    change (frame.locals ++ extra).size = woven.maxLocals
    rw [Array.size_append, executes.size_eq, sizeEq]
  have stretch := stretch_of_inserted effect.inserted wovenExecutes
  have atStart : (frame.beside woven extra).pc = position := atSite
  rw [instrs_eq, ← atStart] at stretch
  obtain ⟨bodyEq, codeEq, pcEq, heightEq, localsEq⟩ := steps.before_load few stretch.left here loads
  have fetched : now.1.code[now.1.pc]? = some (.load kind slot) := by
    rw [codeEq, pcEq, ← here]
    exact stretch.left offset (List.getElem?_eq_some_iff.mp here).1
  have kindPos := kind.slots_pos
  have same : now.1.locals[slot]? = frame.locals[slot]? := by
    rw [localsEq]
    exact Array.getElem?_append_left (by rw [executes.size_eq]; omega)
  have inside : slot + kind.slots ≤ now.1.body.maxLocals := by
    rw [bodyEq]
    change _ ≤ woven.maxLocals
    omega
  have room : now.1.stack.length + kind.slots ≤ now.1.body.maxStack := by
    obtain ⟨last, emitted, peakEq⟩ := exists_emitAll_of_ofList effect.made
    have covered := room_of_load few emitted here loads
    rw [bodyEq, heightEq]
    change frame.stack.length + _ + _ ≤ woven.maxStack
    rw [stands.depth_eq, effect.maxStack_eq, peakEq]
    omega
  rw [← same] at intactIff
  constructor
  · intro intact
    obtain ⟨value, kindEq, found⟩ := intactIff.mpr intact
    refine ⟨value, kindEq, (advances_load_iff fetched).mpr ⟨value, ?_, budget, ?_, rfl⟩⟩
    · exact Frame.loadLocal_eq_ok_iff.mpr ⟨inside, kindEq, found⟩
    · rw [Value.slots, kindEq]
      exact room
  · intro lost
    have differs := mt intactIff.mp lost
    obtain ⟨found, failed⟩ : ∃ found, interpreter.step (withWrappers other) now.1 now.2 = _ :=
      step_of_mismatch fetched budget inside differs
    have refEq : now.1.body.ref = body.ref := by
      rw [bodyEq]
      exact effect.inserted.ref_eq
    exact ⟨found, refEq ▸ failed⟩

end Interpreter

end Weaver.Machine

namespace Weaver.Loom

open Machine Splice

/-- The splice of an injection of an event that is attached to the body of the loom. -/
def attachedSplice (loom : Loom) (id : EventId) (injections : Nat) (cancellable : Bool) : Splice :=
  ⟨(loom.events.get id).name, { Attachment.ofBody loom.body with injections }, cancellable⟩

/-- The arguments are loaded as the body left them.  An execution of the body that is given what its
instructions declare comes to the site of an injection, whatever the worlds of its steps were.  From
there every load of the receiver or of a parameter in the inserted run pushes a value of the declared
kind if the last store of the execution that occupies the first slot of the argument, if there was
one, was of this kind and to this slot; and else it fails with a mismatch.  So no load fails if all
stores of the body to the slots of arguments are such. -/
theorem inject_reloads (interpreter : Interpreter) (other : Behaviour) (loom after : Loom)
    (id : EventId) (index : Nat) (cancellable : Bool) (routine : RoutineId) (injections : Nat)
    (args : List Value) (stores : List (Nat × Kind)) (first frame : Frame)
    (attached : (loom.events.get id).attachment =
      some { Attachment.ofBody loom.body with injections })
    (injected : loom.inject id index cancellable = (.ok routine, after))
    (narrow : loom.body.maxStack ≤ slotLimit) (takes : Takes loom.body args)
    (entered : Frame.enter loom.body args = .ok first)
    (executed : interpreter.Stores (withWrappers other) stores first frame)
    (atSite : frame.pc = index) :
    ∃ (splice : Splice) (skip : Label), splice = loom.attachedSplice id injections cancellable ∧
      Inserted loom.body index
        (splice.instrs loom.body.firstArgSlot (after.proxies.get routine).ref
          (splice.wrapperLocal? loom.body) skip) after.body ∧
      (∀ (extra : Array Slot) (world : World) (offset slot : Nat) (kind : Kind)
        (now : Frame × World),
        loom.body.maxLocals + extra.size = after.body.maxLocals →
        (splice.lead loom.body.firstArgSlot (splice.wrapperLocal? loom.body))[offset]? =
          some (.load kind slot) →
        splice.wrapperLocal? loom.body ≠ some slot →
        interpreter.AdvancesBy (withWrappers other) offset (frame.beside after.body extra, world)
          now →
        now.2.executed < interpreter.limits.budget →
        (Intact slot kind stores → interpreter.Loads (withWrappers other) kind now) ∧
          (¬ Intact slot kind stores →
            interpreter.Mismatches (withWrappers other) loom.body.ref slot kind now)) ∧
      ∀ (slot : Nat) (kind : Kind),
        (∀ place stored, Instr.store stored place ∈ loom.body.code.instrs →
          occupies slot (place, stored) = true → place = slot ∧ stored = kind) →
        Intact slot kind stores := by
  obtain ⟨⟨report, applied⟩, routineEq⟩ := apply_of_inject attached injected
  obtain ⟨depth, skip, run, effect, _⟩ := applied_of_apply applied
  have slotsEq : (after.proxies.get routine).signature.totalSlots =
      loom.body.signature.totalSlots + 1 := by
    rw [routineEq]
    exact Nat.add_comm _ _
  refine ⟨_, skip, rfl, effect.inserted, ?_, ?_⟩
  · intro extra world offset slot kind now sizeEq here loads steps budget
    exact Interpreter.reloads_of_applied effect rfl rfl slotsEq narrow takes entered executed atSite
      sizeEq here loads steps budget
  · intro slot kind faithful
    obtain ⟨balanced, _⟩ := effect.balanced
    obtain ⟨executes, stands, _, _⟩ := Frame.of_enter takes balanced.labels entered
    obtain ⟨_, _, _, members⟩ := executed.stands executes stands narrow balanced
    apply intact_of_forall
    intro store member occupied
    obtain ⟨placeEq, storedEq⟩ := faithful _ _ (members store member) occupied
    exact Prod.ext placeEq storedEq

/-- A method that overwrites its parameter. -/
def overwriting (constant : Const) (kind : Kind) : Body :=
  { Body.ofNames "a/B" "m" ⟨[.int], .void⟩ ⟨9⟩ with
    code := .ofList [.const constant, .store kind 0, .ret none]
    maxStack := 1 }

/-- A frame of the method that overwrites its parameter with five. -/
def overwritingFrame (pc : Nat) (stack : List Slot) (parameter : Value) : Frame :=
  let body := overwriting (.int 5) .int
  ⟨body, body.code.instrs.toArray, body.labels, pc, stack, #[.value parameter]⟩

/-- A parameter that was overwritten with a value of its kind is loaded. -/
theorem inject_reloads_overwriting :
    ((ofBody (overwriting (.int 5) .int)).inject ⟨0⟩ 2 false).1 = .ok ⟨1⟩ ∧
      Takes (overwriting (.int 5) .int) [.int 3] ∧
      Frame.enter (overwriting (.int 5) .int) [.int 3] = .ok (overwritingFrame 0 [] (.int 3)) ∧
      Interpreter.Stores ⟨.empty, .standard⟩ (withWrappers silent) [(0, .int)]
        (overwritingFrame 0 [] (.int 3)) (overwritingFrame 2 [] (.int 5)) ∧
      ∃ now, Interpreter.AdvancesBy ⟨.empty, .standard⟩ (withWrappers silent) 6
          ((overwritingFrame 2 [] (.int 5)).beside
            ((ofBody (overwriting (.int 5) .int)).inject ⟨0⟩ 2 false).2.body #[],
            .fresh .standard .empty) now ∧
        Interpreter.Loads ⟨.empty, .standard⟩ (withWrappers silent) .int now := by
  have injected : ((ofBody (overwriting (.int 5) .int)).inject ⟨0⟩ 2 false).1 = .ok ⟨1⟩ := by
    decide +kernel
  have takes : Takes (overwriting (.int 5) .int) [.int 3] := by decide
  have entered : Frame.enter (overwriting (.int 5) .int) [.int 3] =
      .ok (overwritingFrame 0 [] (.int 3)) := rfl
  have pushes : Interpreter.Advances ⟨.empty, .standard⟩ (withWrappers silent)
      (overwritingFrame 0 [] (.int 3), .fresh .standard .empty)
      (overwritingFrame 1 [.value (.int 5)] (.int 3), World.counted (.fresh .standard .empty)) :=
    rfl
  have writes : Interpreter.Advances ⟨.empty, .standard⟩ (withWrappers silent)
      (overwritingFrame 1 [.value (.int 5)] (.int 3), .fresh .standard .empty)
      (overwritingFrame 2 [] (.int 5), World.counted (.fresh .standard .empty)) :=
    rfl
  have executed : Interpreter.Stores ⟨.empty, .standard⟩ (withWrappers silent) [(0, .int)]
      (overwritingFrame 0 [] (.int 3)) (overwritingFrame 2 [] (.int 5)) :=
    .step (.step .start ⟨.of_plain rfl rfl (by rintro _ _ ⟨⟩), pushes⟩)
      ⟨.of_plain rfl rfl (by rintro _ _ ⟨⟩), writes⟩
  have follows : ((Interpreter.follow ⟨.empty, .standard⟩ (withWrappers silent) 6
      ((overwritingFrame 2 [] (.int 5)).beside
        ((ofBody (overwriting (.int 5) .int)).inject ⟨0⟩ 2 false).2.body #[],
        .fresh .standard .empty)).map fun now =>
          decide (now.2.executed < Limits.standard.budget)) = some true := by
    decide +kernel
  obtain ⟨now, followed, within⟩ := Option.map_eq_some_iff.mp follows
  have arrives := Interpreter.advancesBy_iff_follow.mpr followed
  obtain ⟨splice, skip, rfl, _, reloads, _⟩ := inject_reloads ⟨.empty, .standard⟩ silent
    (ofBody (overwriting (.int 5) .int)) _ ⟨0⟩ 2 false ⟨1⟩ 0 [.int 3] [(0, .int)] _ _ rfl
    (Prod.ext injected rfl) (by decide) takes entered executed rfl
  have loads := (reloads #[] (.fresh .standard .empty) 6 0 .int now (by decide +kernel)
    (by decide +kernel) (by rintro ⟨⟩) arrives (of_decide_eq_true within)).1 (by decide)
  exact ⟨injected, takes, entered, executed, now, arrives, loads⟩

/-- Wherever control comes to the site of an injection into a body of this sort, the arguments are
loaded. -/
def AlwaysReloads (admits : Body → Prop) : Prop :=
  ∀ (interpreter : Interpreter) (other : Behaviour) (loom after : Loom) (id : EventId) (index : Nat)
    (cancellable : Bool) (routine : RoutineId) (injections : Nat) (args : List Value)
    (first frame : Frame) (start came : World),
    admits loom.body →
    (loom.events.get id).attachment = some { Attachment.ofBody loom.body with injections } →
    loom.inject id index cancellable = (.ok routine, after) →
    Takes loom.body args → Frame.enter loom.body args = .ok first →
    Relation.ReflTransGen (interpreter.Advances (withWrappers other)) (first, start) (frame, came) →
    frame.pc = index →
    ∀ (extra : Array Slot) (world : World) (offset slot : Nat) (kind : Kind) (now : Frame × World),
      loom.body.maxLocals + extra.size = after.body.maxLocals →
      ((loom.attachedSplice id injections cancellable).lead loom.body.firstArgSlot
          ((loom.attachedSplice id injections cancellable).wrapperLocal? loom.body))[offset]? =
        some (.load kind slot) →
      (loom.attachedSplice id injections cancellable).wrapperLocal? loom.body ≠ some slot →
      interpreter.AdvancesBy (withWrappers other) offset (frame.beside after.body extra, world)
        now →
      now.2.executed < interpreter.limits.budget →
      interpreter.Loads (withWrappers other) kind now

/-- The state of an execution of the body after some steps. -/
def reached (other : Behaviour) (body : Body) (args : List Value) (steps : Nat) :
    Option (Frame × World) :=
  (Frame.enter body args).toOption.bind fun first =>
    Interpreter.follow ⟨.empty, .standard⟩ (withWrappers other) steps
      (first, .fresh .standard .empty)

/-- The state of the woven body after some steps from the site. -/
def reachedWoven (other : Behaviour) (body : Body) (args : List Value) (steps index offset : Nat) :
    Option (Frame × World) :=
  (reached other body args steps).bind fun came =>
    Interpreter.follow ⟨.empty, .standard⟩ (withWrappers other) offset
      (came.1.beside ((ofBody body).inject ⟨0⟩ index false).2.body #[], came.2)

/-- The arguments are not always loaded if some execution gets stuck at such a load. -/
theorem not_alwaysReloads_of_stuck {admits : Body → Prop} (other : Behaviour) (body : Body)
    (args : List Value) (steps index offset slot : Nat) (kind : Kind) (admitted : admits body)
    (injected : ((ofBody body).inject ⟨0⟩ index false).1 = .ok ⟨1⟩) (takes : Takes body args)
    (sizeEq : body.maxLocals = ((ofBody body).inject ⟨0⟩ index false).2.body.maxLocals)
    (came : (reached other body args steps).map (fun now => now.1.pc) = some index)
    (here : (((ofBody body).attachedSplice ⟨0⟩ 0 false).lead body.firstArgSlot none)[offset]? =
      some (.load kind slot))
    (runs : (reachedWoven other body args steps index offset).map
      (fun now => decide (now.2.executed < Limits.standard.budget)) = some true)
    (stuck : (reachedWoven other body args steps index (offset + 1)).isNone = true) :
    ¬ AlwaysReloads admits := by
  intro always
  obtain ⟨⟨frame, world⟩, reachedEq, atSite⟩ := Option.map_eq_some_iff.mp came
  obtain ⟨first, entered, followed⟩ := Option.bind_eq_some_iff.mp reachedEq
  have entering : Frame.enter body args = .ok first := by
    cases outcome : Frame.enter body args with
    | error fault => simp [outcome, Except.toOption] at entered
    | ok made => simpa [outcome, Except.toOption] using entered
  obtain ⟨now, wovenEq, within⟩ := Option.map_eq_some_iff.mp runs
  rw [reachedWoven, reachedEq, Option.bind_some] at wovenEq stuck
  have arrives := Interpreter.advancesBy_iff_follow.mpr wovenEq
  obtain ⟨value, _, advances⟩ := always ⟨.empty, .standard⟩ other (ofBody body) _ ⟨0⟩ index false
    ⟨1⟩ 0 args first frame _ world admitted rfl (Prod.ext injected rfl) takes entering
    (Interpreter.advancesBy_iff_follow.mpr followed).reaches atSite #[] world offset slot kind now
    sizeEq here (by rintro ⟨⟩) arrives (of_decide_eq_true within)
  have once : Interpreter.AdvancesBy ⟨.empty, .standard⟩ (withWrappers other) 1 now _ :=
    ⟨_, advances, rfl⟩
  rw [Interpreter.advancesBy_iff_follow.mp (arrives.trans once)] at stuck
  cases stuck

/-- A method that calls another and drops one slot of what it returns. -/
def calling : Body :=
  { Body.ofNames "a/B" "m" ⟨[.int, .int, .int, .int, .int], .void⟩ ⟨9⟩ with
    code := .ofList [.call .static ⟨"a/B", "f", ⟨[], .int⟩⟩, .pop, .ret none]
    maxStack := 2 }

/-- The behaviour of methods that return a wide value whatever their type. -/
def answeringWide : Behaviour := fun _ _ world => (.ok (some (.long 1)), world)

/-- The conditions are needed, and bodies that do not meet them are not refused: a parameter that was
overwritten with a value of another kind is not loaded, and where a call returned more than it
declares there is no room for all parameters, even if nothing was stored. -/
theorem not_always_reloads :
    ¬ AlwaysReloads (fun body => body.maxStack ≤ slotLimit) ∧
      ¬ AlwaysReloads (fun body => body.maxStack ≤ slotLimit ∧
        ∀ kind slot, Instr.store kind slot ∉ body.code.instrs) := by
  constructor
  · apply not_alwaysReloads_of_stuck silent (overwriting .null .reference) [.int 3] 2 2 6 0 .int <;>
      decide +kernel
  · have storeless : ∀ kind slot, Instr.store kind slot ∉ calling.code.instrs := by
      intro kind slot member
      simp [calling, Code.ofList, Code.replace] at member
    have narrow : calling.maxStack ≤ slotLimit := by decide
    apply not_alwaysReloads_of_stuck answeringWide calling [.int 1, .int 2, .int 3, .int 4, .int 5]
      2 2 10 4 .int ⟨narrow, storeless⟩ <;> decide +kernel

end Weaver.Loom
