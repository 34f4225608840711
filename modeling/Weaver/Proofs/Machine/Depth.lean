import Weaver.Proofs.Body.Depths
import Weaver.Proofs.Machine.Arguments
import Weaver.Proofs.Machine.Execution
import Weaver.Proofs.Machine.Safe

/-!
# Executions keep to the depths of the analysis

`Instr.effect` counts the slots that an instruction pops and pushes, and `Frame.act` moves values.
The two agree: a frame that stands where control comes, at the depth that it comes with, does what
the effect says or stops with a fault that is none of bookkeeping.  By induction over the steps the
depths of the analysis hold along every run of code whose slots can all be counted.
-/

namespace Weaver

/-- The type of the result of the method that an instruction calls. -/
def Instr.returns? : Instr → Option Ty
  | .call _ method => some method.signature.ret
  | .guardedCall guarded => some guarded.target.signature.ret
  | _ => none

/-- The slots that a call pops when they are counted without a limit. -/
def Instr.callSlots : Instr → Nat
  | .call mode method => method.signature.totalSlots + mode.hasReceiver.toNat
  | .guardedCall guarded => guarded.target.signature.totalSlots
  | _ => 0

/-- The last slot, plus one, of an access to a local, counted without a limit. -/
def Instr.localEnd : Instr → Nat
  | .load kind index | .store kind index => index + kind.slots
  | _ => 0

namespace Body

/-- A body in which no count of slots exceeds the limit. -/
structure WithinLimit (body : Body) : Prop where
  arguments : body.firstArgSlot + body.signature.totalSlots ≤ slotLimit
  calls : ∀ instr ∈ body.code.instrs, instr.callSlots ≤ slotLimit
  locals : ∀ instr ∈ body.code.instrs, instr.localEnd ≤ slotLimit

/-- A body of known depths whose declared bounds cover what its code needs. -/
structure Accounted (body : Body) (depths : List (Option Nat)) : Prop where
  nonempty : body.code.instrs ≠ []
  analysed : body.stackDepths = .ok depths
  stack : ∃ highest, body.requiredMaxStack = .ok highest ∧ highest ≤ body.maxStack
  locals : body.requiredMaxLocals ≤ body.maxLocals
  within : body.WithinLimit

/-- A body of known depths whose declared stack covers them. -/
structure Stacked (body : Body) (depths : List (Option Nat)) : Prop where
  nonempty : body.code.instrs ≠ []
  analysed : body.stackDepths = .ok depths
  stack : ∃ highest, body.requiredMaxStack = .ok highest ∧ highest ≤ body.maxStack

/-- An instruction to which control comes at a depth, in a body whose bounds cover what it needs. -/
structure Covers (body : Body) (index depth : Nat) (instr : Instr) : Prop where
  balanced : Balanced body.code.instrs
  reached : Reaches body.code.instrs index depth
  here : body.code.instrs[index]? = some instr
  peak : max depth (instr.effect.slotsAfter depth) ≤ body.maxStack
  inside : instr.localEnd ≤ body.maxLocals
  narrow : instr.callSlots ≤ slotLimit

variable {body : Body} {depths : List (Option Nat)}

theorem Accounted.stacked (accounted : body.Accounted depths) : body.Stacked depths :=
  ⟨accounted.nonempty, accounted.analysed, accounted.stack⟩

theorem Stacked.records (stacked : body.Stacked depths) : Records body.code.instrs depths :=
  records_of_stackDepths stacked.nonempty stacked.analysed

theorem Stacked.balanced (stacked : body.Stacked depths) : Balanced body.code.instrs :=
  (stackDepths_isOk_iff stacked.nonempty).mp ⟨depths, stacked.analysed⟩

theorem Accounted.records (accounted : body.Accounted depths) :
    Records body.code.instrs depths :=
  accounted.stacked.records

theorem Accounted.balanced (accounted : body.Accounted depths) : Balanced body.code.instrs :=
  accounted.stacked.balanced

/-- The declared stack covers the depths before and behind an instruction that is reached. -/
theorem Stacked.peak_le (stacked : body.Stacked depths) {index depth : Nat} {instr : Instr}
    (reached : Reaches body.code.instrs index depth)
    (here : body.code.instrs[index]? = some instr) :
    max depth (instr.effect.after depth) ≤ body.maxStack := by
  obtain ⟨highest, required, covered⟩ := stacked.stack
  have known := (stacked.records.known_iff index depth).mpr reached
  exact (peakAt_le_requiredMaxStack stacked.analysed required here known).trans covered

/-- Where all slots can be counted, the declared stack covers them. -/
theorem Stacked.slots_le (stacked : body.Stacked depths) (countable : Countable body.code.instrs)
    {index depth : Nat} {instr : Instr} (reached : Reaches body.code.instrs index depth)
    (here : body.code.instrs[index]? = some instr) :
    max depth (instr.effect.slotsAfter depth) ≤ body.maxStack := by
  rw [← Effect.after_eq (countable.slotsAfter_le reached here)]
  exact stacked.peak_le reached here

/-- A body that declares a stack well below the limit takes no more slots than can be counted. -/
theorem Stacked.countable (stacked : body.Stacked depths) (low : body.maxStack + 2 ≤ slotLimit) :
    Countable body.code.instrs := by
  apply countable_iff.mpr
  intro index depth instr reached here
  have below := (Nat.le_max_left _ _).trans (stacked.peak_le reached here)
  have pushes := instr.pushes_le_two
  unfold Effect.slotsAfter
  omega

theorem Accounted.localEnd_le (accounted : body.Accounted depths) {instr : Instr}
    (member : instr ∈ body.code.instrs) : instr.localEnd ≤ body.maxLocals := by
  have bound : instr.localBound ≤ body.requiredMaxLocals :=
    le_foldl_max_of_mem Instr.localBound member _
  have exactEnd : instr.localBound = instr.localEnd := by
    have limit := accounted.within.locals instr member
    cases instr <;> simp only [Instr.localBound, Instr.localEnd] at limit ⊢
    · exact addSlots_of_le limit
    · exact addSlots_of_le limit
  rw [← exactEnd]
  exact bound.trans accounted.locals

theorem Accounted.covers (accounted : body.Accounted depths)
    (countable : Countable body.code.instrs) {index depth : Nat} {instr : Instr} (reached : Reaches body.code.instrs index depth)
    (here : body.code.instrs[index]? = some instr) : body.Covers index depth instr where
  balanced := accounted.balanced
  reached
  here
  peak := accounted.stacked.slots_le countable reached here
  inside := accounted.localEnd_le (List.mem_of_getElem? here)
  narrow := accounted.within.calls _ (List.mem_of_getElem? here)

theorem Covers.enough {index depth : Nat} {instr : Instr} (covers : body.Covers index depth instr) :
    instr.effect.pops ≤ depth :=
  covers.balanced.enough covers.reached covers.here

theorem Covers.room {index depth : Nat} {instr : Instr} (covers : body.Covers index depth instr) :
    instr.effect.slotsAfter depth ≤ body.maxStack :=
  (Nat.le_max_right _ _).trans covers.peak

theorem Accounted.arguments_le (accounted : body.Accounted depths) :
    body.firstArgSlot + body.signature.totalSlots ≤ body.maxLocals := by
  have limit := accounted.within.arguments
  have exactSlots : body.argumentSlots = body.firstArgSlot + body.signature.totalSlots := by
    have sizeEq : body.signature.argsSize = body.signature.totalSlots :=
      Nat.min_eq_left (by omega)
    rw [argumentSlots, sizeEq, addSlots_of_le limit]
  rw [← exactSlots]
  exact (le_foldl_max Instr.localBound body.code.instrs _).trans accounted.locals

end Body

namespace Machine

theorem Heap.checkCast_safe (heap : Heap) (value : Value) (className : String) :
    Safe (fun _ => True) (heap.checkCast value className) := by
  unfold Heap.checkCast
  split
  · trivial
  · split
    · rfl
    · split
      · trivial
      · rfl

theorem Heap.instance?_safe (heap : Heap) (receiver : Value) :
    Safe (fun _ => True) (heap.instance? receiver) := by
  unfold Heap.instance?
  split
  · split
    · trivial
    · rfl
  · rfl

theorem World.alloc_safe (world : World) (object : HeapObject) :
    Safe (fun value => value.kind = .reference) (world.alloc object).1 := by
  unfold World.alloc Heap.alloc
  by_cases full : 0 < world.heap.limit ∧ world.heap.limit ≤ world.heap.objects.size
  · simp [full]
    rfl
  · by_cases exhausted : UInt32.size ≤ world.heap.objects.size
    · simp [full, exhausted]
      rfl
    · simp [full, exhausted]
      rfl

theorem kind_of_arith? {op : ArithOp} {x y value : Value} (computed : arith? op x y = some value) :
    value.kind = x.kind := by
  cases x <;> cases y <;> simp only [arith?, reduceCtorEq] at computed <;> cases computed <;> rfl

namespace Frame

/-- The stored value that an access to a field would read. -/
def stored? (frame : Frame) (world : World) (op : FieldOp) (field : FieldRef) : Option Value :=
  match op, frame.stack with
  | .getStatic, _ => world.statics.lookup (field.owner, field.name)
  | .getField, .value receiver :: _ =>
      match world.heap.instance? receiver with
      | .ok (_, _, fields) => fields.lookup field.name
      | .error _ => none
  | _, _ => none

variable {body : Body} {frame : Frame} {pc depth : Nat}

theorem Stands.pushKind (stands : frame.Stands body pc depth) {value : Value} {kind : Kind}
    (kindEq : value.kind = kind) (room : depth + kind.slots ≤ body.maxStack) :
    Safe (Stands body pc (depth + kind.slots)) (frame.push value) := by
  subst kindEq
  exact stands.push value room

theorem Stands.test (stands : frame.Stands body pc depth) {cond : Cond}
    (enough : cond.pops ≤ depth) :
    Safe (fun tested => tested.2.Stands body pc (depth - cond.pops) ∧
      (cond = .always → tested.1 = true)) (frame.test cond) := by
  have conditionally : ∀ {cond : Cond} {tested : Bool × Frame}, cond ≠ .always →
      tested.2.Stands body pc (depth - cond.pops) →
      tested.2.Stands body pc (depth - cond.pops) ∧ (cond = .always → tested.1 = true) :=
    fun conditional below => ⟨below, fun same => absurd same conditional⟩
  refine test_cases (motive := fun cond test => cond.pops ≤ depth →
    Safe (fun tested => tested.2.Stands body pc (depth - cond.pops) ∧
      (cond = .always → tested.1 = true)) (test frame)) ?_ ?_ ?_ ?_ cond enough
  · exact fun _ => ⟨stands, fun _ => rfl⟩
  · intro cond answer pops conditional enough
    rw [pops] at enough
    refine (stands.popInt enough).bind fun top below => conditionally conditional ?_
    rw [pops]
    exact below
  · intro cond answer pops conditional enough
    rw [pops] at enough
    refine (stands.popKind .reference enough).bind fun top below => conditionally conditional ?_
    rw [pops]
    exact below.2
  · intro cond answer pops conditional enough
    rw [pops] at enough
    apply (stands.popInt (by omega)).bind
    intro first standsFirst
    refine (standsFirst.popInt (by omega)).bind fun second standsSecond =>
      conditionally conditional ?_
    rw [pops]
    exact standsSecond

theorem Stands.calculate (stands : frame.Stands body pc depth) {op : ArithOp} {kind : Kind}
    (enough : kind.slots * 2 ≤ depth) (room : depth - kind.slots * 2 + kind.slots ≤ body.maxStack) :
    Safe (Stands body pc (depth - kind.slots * 2 + kind.slots)) (frame.calculate op kind) := by
  apply (stands.popKind kind (by omega)).bind
  rintro right ⟨rightKind, standsRight⟩
  apply (standsRight.popKind kind (by omega)).bind
  rintro left ⟨leftKind, standsLeft⟩
  have depthEq : depth - kind.slots - kind.slots = depth - kind.slots * 2 := by omega
  rw [depthEq] at standsLeft
  simp only
  cases computed : arith? op left.1 right.1 with
  | none => rfl
  | some value => exact standsLeft.pushKind ((kind_of_arith? computed).trans leftKind) room

theorem Stands.duplicate (stands : frame.Stands body pc depth)
    (room : depth + 1 ≤ body.maxStack) :
    Safe (Stands body pc (depth + 1)) frame.duplicate := by
  unfold Frame.duplicate
  split
  · rename_i value _
    by_cases narrow : value.slots = 1
    · have pushed := stands.push value (by omega)
      rw [narrow] at pushed
      simpa [narrow] using pushed
    · simp [narrow]
      rfl
  · rfl

theorem Stands.cast (stands : frame.Stands body pc depth) {heap : Heap} {className : String}
    (enough : 1 ≤ depth) (room : depth ≤ body.maxStack) :
    Safe (Stands body pc depth) (frame.cast heap className) := by
  apply (stands.popKind .reference enough).bind
  rintro popped ⟨kindEq, below⟩
  apply (heap.checkCast_safe popped.1 className).bind
  intro _ _
  have depthEq : depth - Kind.slots .reference + Kind.slots .reference = depth :=
    Nat.sub_add_cancel enough
  have pushed := below.pushKind kindEq (by rw [depthEq]; exact room)
  rwa [depthEq] at pushed

/-- The frame stands where control goes from the given position and depth. -/
def Follows (body : Body) (index depth : Nat) (next : Frame) : Prop :=
  ∃ state : Nat × Nat, Body.Fills body.code.instrs (index, depth) state ∧
    next.Stands body state.1 state.2

/-- What an instruction may do: control goes on where the flow goes, or the frame waits for the
result of a call with what the call pops taken off the stack. -/
def Outcome (body : Body) (index depth : Nat) (instr : Instr) : Action → Prop
  | .proceed next => next.Follows body index depth
  | .call waiting method _ =>
      ∃ mode, instr = .call mode method ∧
        waiting.Stands body (index + 1) (depth - instr.effect.pops)
  | .guarded waiting guarded _ =>
      instr = .guardedCall guarded ∧ waiting.Stands body (index + 1) (depth - instr.effect.pops)
  | .leave _ => True

variable {index : Nat} {instr : Instr} {depths : List (Option Nat)}

/-- An instruction that falls through and moves the depth as its effect says. -/
theorem proceeds_next (here : body.code.instrs[index]? = some instr)
    (enough : instr.effect.pops ≤ depth) (falls : instr.fallsThrough = true)
    {result : Except Fault Frame}
    (safe : Safe (Stands body (index + 1) (instr.effect.slotsAfter depth)) result) :
    Safe (Outcome body index depth instr) (result.map .proceed) :=
  safe.map fun _ stands => ⟨_, .next here enough falls, stands⟩

theorem proceedWith_safe {property : Frame → Prop} {outcome : Action → Prop}
    {result : Except Fault (Frame × World)} (safe : Safe (fun next => property next.1) result)
    (proceeds : ∀ next, property next → outcome (.proceed next)) :
    Safe outcome (proceedWith world result).1 := by
  cases result with
  | error fault => exact safe
  | ok next => exact proceeds next.1 safe

theorem Stands.access (stands : frame.Stands body (index + 1) depth) {world : World}
    {op : FieldOp} {field : FieldRef} (here : body.code.instrs[index]? = some (.field op field))
    (enough : (Instr.field op field).effect.pops ≤ depth)
    (room : (Instr.field op field).effect.slotsAfter depth ≤ body.maxStack)
    (declared : ∀ value, frame.stored? world op field = some value →
      field.type.kind? = some value.kind) :
    Safe (Outcome body index depth (.field op field)) (frame.access world op field).1 := by
  unfold Frame.access
  cases kindEq : field.type.kind? with
  | none => rfl
  | some kind =>
      have slotsEq : field.type.slots = kind.slots := by simp [Ty.slots, kindEq]
      have kindOf : ∀ stored : Option Value,
          (∀ value, stored = some value → field.type.kind? = some value.kind) →
          (stored.getD (.zero kind)).kind = kind := by
        intro stored each
        cases stored with
        | none => exact Value.kind_zero kind
        | some value => exact (Option.some.inj (kindEq.symm.trans (each value rfl))).symm
      cases op with
      | getStatic =>
          simp only [Instr.effect, Effect.slotsAfter, slotsEq] at enough room
          refine proceeds_next here enough rfl ?_
          simp only [Instr.effect, Effect.slotsAfter, slotsEq]
          exact stands.pushKind (kindOf _ declared) room
      | putStatic =>
          simp only [Instr.effect, slotsEq] at enough
          refine proceedWith_safe ?_ fun next stands => ⟨_, .next here ?_ rfl, stands⟩
          · apply (stands.popKind kind enough).bind
            intro popped below
            simpa [Instr.effect, Effect.slotsAfter, slotsEq] using below.2
          · simpa [Instr.effect, slotsEq] using enough
      | getField =>
          simp only [Instr.effect, Effect.slotsAfter, slotsEq] at enough room
          refine proceeds_next here enough rfl ?_
          simp only [Instr.effect, Effect.slotsAfter, slotsEq]
          apply (stands.popKind .reference enough).bind_of_eq
          intro popped poppedEq below
          apply (world.heap.instance?_safe popped.1).bind_of_eq
          intro found foundEq _
          refine below.2.pushKind (kindOf _ fun value stored => declared value ?_) room
          obtain ⟨kindEq, rest, stackEq, _⟩ := popKind_eq_ok_iff.mp poppedEq
          have narrow : popped.1.slots = 1 := Value.slots_of_reference kindEq
          simpa [stored?, stackEq, Value.cells_of_narrow narrow, foundEq] using stored
      | putField =>
          simp only [Instr.effect, slotsEq] at enough
          refine proceedWith_safe ?_ fun next stands => ⟨_, .next here ?_ rfl, stands⟩
          · apply (stands.popKind kind (by omega)).bind
            intro popped below
            have receiverFits : Kind.slots .reference ≤ depth - kind.slots :=
              Nat.le_sub_of_add_le enough
            apply (below.2.popKind .reference receiverFits).bind
            intro receiver under
            apply (world.heap.instance?_safe receiver.1).bind
            intro found _
            have total : depth - kind.slots - Kind.slots .reference = depth - (1 + kind.slots) := by
              rw [Nat.sub_sub, Nat.add_comm]
              rfl
            simpa [Instr.effect, Effect.slotsAfter, slotsEq, total] using under.2
          · simpa [Instr.effect, slotsEq] using enough

theorem Stands.prepareCall (stands : frame.Stands body (index + 1) depth) {mode : CallMode}
    {method : MethodRef} (limit : (Instr.call mode method).callSlots ≤ slotLimit)
    (enough : (Instr.call mode method).effect.pops ≤ depth) :
    Safe (Outcome body index depth (.call mode method)) (frame.prepareCall mode method) := by
  have popsEq : (Instr.call mode method).effect.pops =
      method.signature.totalSlots + mode.hasReceiver.toNat := by
    simp only [Instr.callSlots] at limit
    have sizeEq : method.signature.argsSize = method.signature.totalSlots :=
      Nat.min_eq_left (by omega)
    simp only [Instr.effect, Instr.callPops, sizeEq]
    exact addSlots_of_le limit
  apply (stands.popArgs method mode.hasReceiver (popsEq ▸ enough)).bind
  intro outcome waiting
  simp only
  split
  · rfl
  · refine ⟨mode, rfl, ?_⟩
    rw [popsEq]
    exact waiting

theorem Stands.pushNew (stands : frame.Stands body pc depth) {world : World}
    {object : HeapObject} {outcome : Action → Prop} (room : depth + 1 ≤ body.maxStack)
    (proceeds : ∀ next : Frame, next.Stands body pc (depth + 1) → outcome (.proceed next)) :
    Safe outcome (frame.pushNew world object).1 := by
  have allocated := world.alloc_safe object
  unfold Frame.pushNew
  split
  · rename_i fault after allocEq
    rw [allocEq] at allocated
    exact allocated
  · rename_i value after allocEq
    rw [allocEq] at allocated
    have isReference : value.kind = .reference := allocated
    exact (stands.pushKind isReference room).map proceeds

/-- An instruction that control reaches moves the depth as its effect says. -/
theorem Stands.act (stands : frame.Stands body (index + 1) depth) (world : World)
    (covers : body.Covers index depth instr)
    (declared : ∀ op field value, instr = .field op field →
      frame.stored? world op field = some value → field.type.kind? = some value.kind) :
    Safe (Outcome body index depth instr) (frame.act world instr).1 := by
  have here := covers.here
  have enough := covers.enough
  have room := covers.room
  have inside := covers.inside
  have falls (sequential : instr.fallsThrough = true) {result : Except Fault Frame}
      (safe : Safe (Stands body (index + 1) (instr.effect.slotsAfter depth)) result) :
      Safe (Outcome body index depth instr) (result.map .proceed) :=
    proceeds_next here enough sequential safe
  cases instr with
  | nop => exact ⟨_, .next here enough rfl, stands⟩
  | label => exact ⟨_, .next here enough rfl, stands⟩
  | const constant =>
      cases constant with
      | string text =>
          exact stands.pushNew room fun next pushed => ⟨_, .next here enough rfl, pushed⟩
      | null => exact falls rfl (stands.push .null room)
      | int value => exact falls rfl (stands.push (.int value) room)
      | long value => exact falls rfl (stands.push (.long value) room)
      | float value => exact falls rfl (stands.push (.float value) room)
      | double value => exact falls rfl (stands.push (.double value) room)
  | load kind slot =>
      exact falls rfl ((stands.loadLocal inside).bind fun value kindEq =>
        stands.pushKind kindEq room)
  | store kind slot =>
      refine falls rfl ((stands.popKind kind enough).bind fun popped below => ?_)
      exact below.2.storeLocal (by rw [Value.slots, below.1]; exact inside)
  | pop => exact falls rfl ((stands.popSlot enough).map fun popped below => below.1)
  | dup =>
      have afterEq : (Instr.effect .dup).slotsAfter depth = depth + 1 := by
        have one : 1 ≤ depth := enough
        simp only [Effect.slotsAfter, Instr.effect]
        omega
      rw [afterEq] at room
      exact falls rfl (afterEq ▸ stands.duplicate room)
  | arith op kind => exact falls rfl (stands.calculate enough room)
  | new className => exact stands.pushNew room fun next pushed => ⟨_, .next here enough rfl, pushed⟩
  | checkCast className =>
      have afterEq : (Instr.effect (.checkCast className)).slotsAfter depth = depth :=
        Nat.sub_add_cancel enough
      rw [afterEq] at room
      exact falls rfl (afterEq ▸ stands.cast enough room)
  | field op field => exact stands.access here enough room fun value => declared op field value rfl
  | call mode method => exact stands.prepareCall covers.narrow enough
  | guardedCall guarded =>
      have limit : guarded.target.signature.totalSlots ≤ slotLimit := covers.narrow
      have popsEq : (Instr.guardedCall guarded).effect.pops =
          guarded.target.signature.totalSlots := Nat.min_eq_left limit
      refine (stands.popArgs guarded.target false (popsEq ▸ enough)).map fun outcome waiting =>
        ⟨rfl, ?_⟩
      rw [popsEq]
      exact waiting
  | jump cond target =>
      have defined := covers.balanced.target covers.reached here rfl
      refine Safe.map (?_ : Safe (Follows body index depth) _) fun _ follows => follows
      apply (stands.test enough).bind
      rintro ⟨taken, under⟩ ⟨standsUnder, always⟩
      cases taken with
      | true =>
          apply (standsUnder.goto defined).mono
          rintro next ⟨position, there, standsThere⟩
          exact ⟨_, .branch here enough rfl there, standsThere⟩
      | false =>
          have conditional : (Instr.jump cond target).fallsThrough = true := by
            cases cond with
            | always => cases always rfl
            | _ => rfl
          exact ⟨_, .next here enough conditional, standsUnder⟩
  | ret kind? =>
      cases kind? with
      | none => trivial
      | some kind => exact (stands.popKind kind enough).map fun _ _ => trivial
  | throw =>
      exact (stands.popKind .reference enough).bind fun _ _ => rfl

end Frame

namespace Interpreter

variable {interpreter : Interpreter} {behaviour : Behaviour} {body : Body}
  {depths : List (Option Nat)}

/-- What the next instruction is given from outside its frame, the result of a call or the stored
value of a field, has the kind that the instruction declares. -/
structure GivesDeclared (interpreter : Interpreter) (behaviour : Behaviour) (frame : Frame)
    (world : World) : Prop where
  fields : ∀ op field value, frame.code[frame.pc]? = some (.field op field) →
    frame.stored? world op field = some value → field.type.kind? = some value.kind
  results : ∀ ret result after, (frame.code[frame.pc]?.bind Instr.returns?) = some ret →
    interpreter.answer? behaviour frame world = some (.ok result, after) →
    result.map Value.kind = ret.kind?

/-- One step whose instruction is given what it declares. -/
def AdvancesDeclared (interpreter : Interpreter) (behaviour : Behaviour)
    (now next : Frame × World) : Prop :=
  interpreter.GivesDeclared behaviour now.1 now.2 ∧ interpreter.Advances behaviour now next

/-- A frame that waited goes on behind its call, unless the call failed. -/
theorem resume_of_stands {waiting : Frame} {index depth : Nat} {ret : Ty} {answer : CallResult}
    (stands : waiting.Stands body index depth) (room : depth + ret.slots ≤ body.maxStack)
    (declared : ∀ result after, answer = (.ok result, after) →
      result.map Value.kind = ret.kind?) :
    (∀ next after, resume waiting answer = (.ok (.running next), after) →
      next.Stands body index (depth + ret.slots)) ∧
    ∀ fault after, resume waiting answer = (.error fault, after) → fault.isBookkeeping = true →
      answer = (.error fault, after) := by
  rcases answer with ⟨fault | result, world⟩
  · constructor
    · rintro next after ⟨⟩
    · rintro cause after ⟨⟩ _
      rfl
  · have pushed := stands.pushResult (declared result world rfl) room
    simp only [resume]
    cases pushedEq : waiting.pushResult result with
    | error fault =>
        rw [pushedEq] at pushed
        constructor
        · rintro next after ⟨⟩
        · rintro cause after ⟨⟩ book
          cases pushed.symm.trans book
    | ok frame =>
        rw [pushedEq] at pushed
        constructor
        · rintro next after ⟨⟩
          exact pushed
        · rintro cause after ⟨⟩

/-- One step from where control comes: it goes on where the flow goes, and a fault of bookkeeping can
only be one that the called method gave. -/
theorem step_of_covers {frame : Frame} {world : World} {index depth : Nat} {instr : Instr}
    (stands : frame.Stands body index depth) (covers : body.Covers index depth instr)
    (declared : interpreter.GivesDeclared behaviour frame world) :
    (∀ next after, interpreter.step behaviour frame world = (.ok (.running next), after) →
      next.Follows body index depth) ∧
    ∀ fault after, interpreter.step behaviour frame world = (.error fault, after) →
      fault.isBookkeeping = true →
      interpreter.answer? behaviour frame world = some (.error fault, after) := by
  have here := covers.here
  have enough := covers.enough
  have room := covers.room
  have fetched : frame.code[index]? = some instr := by
    rw [stands.code_eq]
    simpa using here
  have fetchedHere : frame.code[frame.pc]? = some instr := stands.pc_eq ▸ fetched
  have moved := (stands.withPc (index + 1)).act world.counted covers
    fun op field value instrEq stored =>
      declared.fields op field value (instrEq ▸ fetchedHere) stored
  have results := declared.results
  simp only [answer?, stands.pc_eq, fetched, Option.bind_some] at results ⊢
  rw [step_eq fetchedHere, stands.pc_eq]
  by_cases exhausted : interpreter.limits.budget < world.executed + 1
  · rw [if_pos exhausted]
    constructor
    · rintro next after ⟨⟩
    · rintro fault after ⟨⟩ ⟨⟩
  · rw [if_neg exhausted]
    generalize Frame.act { frame with pc := index + 1 } world.counted instr = acted
      at moved results ⊢
    rcases acted with ⟨fault | action, after⟩
    · constructor
      · rintro next last ⟨⟩
      · rintro cause last ⟨⟩ book
        cases moved.symm.trans book
    · cases action with
      | proceed next =>
          constructor
          · rintro other last ⟨⟩
            exact moved
          · rintro fault last ⟨⟩
      | leave result =>
          constructor
          · rintro next last ⟨⟩
          · rintro fault last ⟨⟩
      | call waiting method args =>
          obtain ⟨mode, rfl, stands⟩ := moved
          have resumed := resume_of_stands stands room fun result last answer =>
            results _ result last rfl (congrArg some answer)
          constructor
          · intro next last stepEq
            exact ⟨_, .next here enough rfl, resumed.1 next last stepEq⟩
          · intro fault last stepEq book
            exact congrArg some (resumed.2 fault last stepEq book)
      | guarded waiting guarded args =>
          obtain ⟨rfl, stands⟩ := moved
          have resumed := resume_of_stands stands room fun result last answer =>
            results _ result last rfl (congrArg some answer)
          constructor
          · intro next last stepEq
            exact ⟨_, .next here enough rfl, resumed.1 next last stepEq⟩
          · intro fault last stepEq book
            exact congrArg some (resumed.2 fault last stepEq book)

/-- One step of a body whose bounds cover what its code needs. -/
theorem step_of_stands {frame : Frame} {world : World} {index depth : Nat}
    (stands : frame.Stands body index depth) (accounted : body.Accounted depths)
    (countable : Body.Countable body.code.instrs)
    (reached : Body.Reaches body.code.instrs index depth)
    (declared : interpreter.GivesDeclared behaviour frame world) :
    (∀ next after, interpreter.step behaviour frame world = (.ok (.running next), after) →
      next.Follows body index depth) ∧
    ∀ fault after, interpreter.step behaviour frame world = (.error fault, after) →
      fault.isBookkeeping = true →
      interpreter.answer? behaviour frame world = some (.error fault, after) := by
  obtain ⟨instr, here⟩ := accounted.balanced.exists_instr reached
  exact step_of_covers stands (accounted.covers countable reached here) declared

/-- An execution all of whose instructions are given what they declare. -/
theorem declared_of_advances {now next : Frame × World}
    (declared : ∀ state, Relation.ReflTransGen (interpreter.Advances behaviour) now state →
      interpreter.GivesDeclared behaviour state.1 state.2)
    (run : Relation.ReflTransGen (interpreter.Advances behaviour) now next) :
    Relation.ReflTransGen (interpreter.AdvancesDeclared behaviour) now next := by
  induction run with
  | refl => exact .refl
  | tail earlier step ih => exact ih.tail ⟨declared _ earlier, step⟩

/-- Along every run the depths of the analysis hold. -/
theorem stands_of_advances {first : Frame} {world : World} {now : Frame × World}
    (stands : first.Stands body 0 0) (accounted : body.Accounted depths)
    (countable : Body.Countable body.code.instrs)
    (run : Relation.ReflTransGen (interpreter.AdvancesDeclared behaviour) (first, world) now) :
    ∃ index depth, Body.Reaches body.code.instrs index depth ∧ now.1.Stands body index depth := by
  induction run with
  | refl => exact ⟨0, 0, Body.reaches_start _, stands⟩
  | tail _ step ih =>
      obtain ⟨index, depth, reached, standsHere⟩ := ih
      obtain ⟨state, fills, standsNext⟩ :=
        (step_of_stands standsHere accounted countable reached step.1).1 _ _ step.2
      exact ⟨state.1, state.2, reached.follow (countable.follows reached fills),
        standsNext⟩

end Interpreter

end Machine

end Weaver
