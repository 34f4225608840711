import Weaver.Proofs.Machine.Cells
import Weaver.Proofs.Machine.Execution
import Weaver.Proofs.Splice.Relocation

/-!
# Frames of the body and of the woven code

The woven code executes an instruction of the body on a frame that has the same stack and the same
locals, with others behind them.  Every operation on that frame mirrors the one on the frame of the
body, unless the latter goes beyond the bounds that the body declares.
-/

namespace Weaver.Machine

/-- Whether a fault says that a frame goes beyond the bounds that its body declares. -/
def Fault.exceeds : Fault → Bool
  | .stackOverflow .. | .frame _ (.localOutOfRange ..) => true
  | _ => false

/-- The other result is the image of the first, which has a property where it is a value; only where
the first goes beyond declared bounds, and there is more room for the other, may that be anything. -/
def Mirrors {α β : Type} (roomier : Prop) (keeps : α → Prop) (image : α → β)
    (result : Except Fault α) (other : Except Fault β) : Prop :=
  match result with
  | .ok value => other = .ok (image value) ∧ keeps value
  | .error fault => (roomier ∧ fault.exceeds = true) ∨ other = .error fault

namespace Mirrors

variable {α β γ δ : Type} {roomier : Prop} {keeps : α → Prop} {image : α → β} {keepsLater : γ → Prop}
  {later : γ → δ} {result : Except Fault α} {other : Except Fault β}

theorem refl (result : Except Fault α) : Mirrors roomier (fun _ => True) id result result := by
  cases result with
  | error fault => exact .inr rfl
  | ok value => exact ⟨rfl, trivial⟩

theorem bind {next : α → Except Fault γ} {otherNext : β → Except Fault δ}
    (mirrors : Mirrors roomier keeps image result other)
    (continuation : ∀ value, keeps value →
      Mirrors roomier keepsLater later (next value) (otherNext (image value))) :
    Mirrors roomier keepsLater later (result >>= next) (other >>= otherNext) := by
  cases result with
  | error fault =>
      rcases mirrors with exceeds | rfl
      · exact .inl exceeds
      · exact .inr rfl
  | ok value =>
      obtain ⟨rfl, kept⟩ := mirrors
      exact continuation value kept

theorem map {function : α → γ} {otherFunction : β → δ}
    (mirrors : Mirrors roomier keeps image result other)
    (commutes : ∀ value, keeps value →
      otherFunction (image value) = later (function value) ∧ keepsLater (function value)) :
    Mirrors roomier keepsLater later (result.map function) (other.map otherFunction) := by
  cases result with
  | error fault =>
      rcases mirrors with exceeds | rfl
      · exact .inl exceeds
      · exact .inr rfl
  | ok value =>
      obtain ⟨rfl, kept⟩ := mirrors
      exact ⟨congrArg Except.ok (commutes value kept).1, (commutes value kept).2⟩

end Mirrors

namespace Frame

/-- The frame of the woven body beside one of the body: with more locals, and at the position that
corresponds to that of the body. -/
def image (woven : Body) (extra : Array Slot) (place : Nat → Nat) (frame : Frame) : Frame :=
  ⟨woven, woven.code.instrs.toArray, woven.labels, place frame.pc, frame.stack,
    frame.locals ++ extra⟩

/-- The value and the image of the frame that an operation gives. -/
abbrev imageOf {α : Type} (woven : Body) (extra : Array Slot) (place : Nat → Nat) :
    α × Frame → α × Frame := Prod.map id (image woven extra place)

/-- The frame executes the body, and holds all locals that it declares. -/
structure Executes (body : Body) (frame : Frame) : Prop where
  body_eq : frame.body = body
  code_eq : frame.code = body.code.instrs.toArray
  labels_eq : frame.labels = body.labels
  size_eq : frame.locals.size = body.maxLocals

variable {body woven : Body} {frame : Frame} {extra : Array Slot} {place : Nat → Nat}

theorem Executes.withStack (executes : frame.Executes body) (stack : List Slot) :
    Executes body { frame with stack } :=
  ⟨executes.body_eq, executes.code_eq, executes.labels_eq, executes.size_eq⟩

theorem Executes.withPc (executes : frame.Executes body) (pc : Nat) :
    Executes body { frame with pc } :=
  ⟨executes.body_eq, executes.code_eq, executes.labels_eq, executes.size_eq⟩

theorem Executes.corrupt (executes : frame.Executes body) (widens : Splice.Widens body woven)
    (cause : FrameFault) :
    (frame.image woven extra place).corrupt cause = frame.corrupt cause := by
  unfold Frame.corrupt
  rw [executes.body_eq, ← widens.ref_eq]
  rfl

theorem Executes.popSlot (executes : frame.Executes body) (widens : Splice.Widens body woven) :
    Mirrors (Splice.Roomier body woven) (fun popped => popped.2.Executes body) (imageOf woven extra place) frame.popSlot
      (frame.image woven extra place).popSlot := by
  unfold Frame.popSlot
  rw [executes.corrupt widens]
  cases stackEq : frame.stack with
  | nil => simp [image, stackEq, Mirrors]
  | cons slot rest => simp [image, stackEq, Mirrors, executes.withStack rest]

theorem Executes.pop (executes : frame.Executes body) (widens : Splice.Widens body woven) :
    Mirrors (Splice.Roomier body woven) (fun popped => popped.2.Executes body) (imageOf woven extra place) frame.pop
      (frame.image woven extra place).pop := by
  have sameStack : (frame.image woven extra place).stack = frame.stack := rfl
  have refused : ∀ cause, Mirrors (Splice.Roomier body woven) (fun popped : Value × Frame => popped.2.Executes body)
      (imageOf woven extra place) (.error (frame.corrupt cause))
      (.error ((frame.image woven extra place).corrupt cause)) :=
    fun cause => .inr (congrArg Except.error (executes.corrupt widens cause))
  unfold Frame.pop Frame.popSlot
  rw [sameStack]
  cases frame.stack with
  | nil => exact refused .underflow
  | cons slot rest =>
      cases slot with
      | empty => exact refused (.unexpectedSlot .empty)
      | value value =>
          by_cases narrow : value.slots = 1
          · simp only [narrow, if_true]
            exact ⟨rfl, executes.withStack rest⟩
          · simp only [narrow, if_false]
            exact refused (.unexpectedSlot (.value value))
      | top =>
          cases rest with
          | nil => exact refused .underflow
          | cons lower rest =>
              cases lower with
              | top => exact refused (.splitWide .top)
              | empty => exact refused (.splitWide .empty)
              | value value =>
                  by_cases wide : value.slots = 2
                  · simp only [wide, if_true]
                    exact ⟨rfl, executes.withStack rest⟩
                  · simp only [wide, if_false]
                    exact refused (.splitWide (.value value))

theorem Executes.popKind (executes : frame.Executes body) (widens : Splice.Widens body woven)
    (kind : Kind) :
    Mirrors (Splice.Roomier body woven) (fun popped => popped.2.Executes body) (imageOf woven extra place)
      (frame.popKind kind) ((frame.image woven extra place).popKind kind) := by
  rw [popKind_eq_bind, popKind_eq_bind]
  apply (executes.pop widens).bind
  intro popped below
  rw [executes.corrupt widens]
  by_cases same : popped.1.kind = kind
  · simp [same, Mirrors, below]
  · simp [same, Mirrors]

theorem Executes.popInt (executes : frame.Executes body) (widens : Splice.Widens body woven) :
    Mirrors (Splice.Roomier body woven) (fun popped => popped.2.Executes body) (imageOf woven extra place) frame.popInt
      (frame.image woven extra place).popInt := by
  rw [popInt_eq_bind, popInt_eq_bind]
  apply (executes.popKind widens .int).bind
  intro popped below
  rcases popped with ⟨value, under⟩
  cases value with
  | int value => exact ⟨rfl, below⟩
  | _ => exact .inr (congrArg Except.error (executes.corrupt widens _))

theorem Executes.popTypes (executes : frame.Executes body) (widens : Splice.Widens body woven)
    (types : List Ty) (popped : List Value) :
    Mirrors (Splice.Roomier body woven) (fun outcome => outcome.2.Executes body) (imageOf woven extra place)
      (frame.popTypes types popped) ((frame.image woven extra place).popTypes types popped) := by
  induction types generalizing frame popped with
  | nil => exact ⟨rfl, executes⟩
  | cons type rest ih =>
      rw [popTypes_cons, popTypes_cons, executes.corrupt widens]
      cases type.kind? with
      | none => exact .inr rfl
      | some kind =>
          exact (executes.popKind widens kind).bind fun top below => ih below (top.1 :: popped)

theorem Executes.popArgs (executes : frame.Executes body) (widens : Splice.Widens body woven)
    (method : MethodRef) (hasReceiver : Bool) :
    Mirrors (Splice.Roomier body woven) (fun outcome => outcome.2.Executes body) (imageOf woven extra place)
      (frame.popArgs method hasReceiver)
      ((frame.image woven extra place).popArgs method hasReceiver) := by
  rw [popArgs_eq_bind, popArgs_eq_bind]
  apply (executes.popTypes widens method.signature.params.reverse []).bind
  intro popped below
  cases hasReceiver with
  | false => exact ⟨rfl, below⟩
  | true => exact (below.popKind widens .reference).bind fun receiver under => ⟨rfl, under⟩

/-- A push does the same wherever the body has room for it, or where there is no more for the woven
body. -/
theorem Executes.push (executes : frame.Executes body) (widens : Splice.Widens body woven)
    (value : Value) :
    Mirrors (Splice.Roomier body woven) (Executes body) (image woven extra place)
      (frame.push value) ((frame.image woven extra place).push value) := by
  have sameStack : (frame.image woven extra place).stack = frame.stack := rfl
  have wovenBody : (frame.image woven extra place).body = woven := rfl
  rw [push_eq, push_eq, executes.body_eq, sameStack, wovenBody, widens.ref_eq]
  by_cases room : frame.stack.length + value.slots ≤ body.maxStack
  · rw [if_pos room, if_pos (Nat.le_trans room widens.stack_le)]
    exact ⟨rfl, executes.withStack _⟩
  · rw [if_neg room]
    rcases Nat.eq_or_lt_of_le widens.stack_le with same | more
    · rw [← same, if_neg room]
      exact .inr rfl
    · exact .inl ⟨.inl more, rfl⟩

theorem Executes.pushResult (executes : frame.Executes body) (widens : Splice.Widens body woven)
    (result : Option Value) :
    Mirrors (Splice.Roomier body woven) (Executes body) (image woven extra place) (frame.pushResult result)
      ((frame.image woven extra place).pushResult result) := by
  cases result with
  | none => exact ⟨rfl, executes⟩
  | some value => exact executes.push widens value

/-- A load reads the same wherever the body declares the local, or where the woven body declares no
more. -/
theorem Executes.loadLocal (executes : frame.Executes body) (widens : Splice.Widens body woven)
    (kind : Kind) (index : Nat) :
    Mirrors (Splice.Roomier body woven) (fun _ => True) id (frame.loadLocal kind index)
      ((frame.image woven extra place).loadLocal kind index) := by
  unfold Frame.loadLocal checkLocal
  by_cases outside : frame.body.maxLocals < index + kind.slots
  · rcases Nat.eq_or_lt_of_le widens.locals_le with same | more
    · have sameLocals : (frame.image woven extra place).body.maxLocals = frame.body.maxLocals := by
        rw [executes.body_eq]
        exact same.symm
      simp only [sameLocals, outside, if_true]
      exact .inr (congrArg Except.error (executes.corrupt widens _))
    · simp only [outside, if_true]
      exact .inl ⟨.inr more, rfl⟩
  · have positive := kind.slots_pos
    have within := executes.size_eq
    rw [← executes.body_eq] at within
    have inside : ¬ (frame.image woven extra place).body.maxLocals < index + kind.slots := by
      intro beyond
      rw [executes.body_eq] at outside
      exact outside (Nat.lt_of_le_of_lt widens.locals_le beyond)
    have sameSlot : (frame.image woven extra place).locals[index]? = frame.locals[index]? :=
      Array.getElem?_append_left (by omega)
    simp only [outside, inside, if_false, sameSlot, executes.corrupt widens]
    exact .refl _

/-- Values that are written below the end of the locals do not reach what is behind it. -/
theorem writeSlots_append {locals : Array Slot} {index : Nat} {value : Value}
    (inside : index + value.slots ≤ locals.size) :
    writeSlots (locals ++ extra) index value = writeSlots locals index value ++ extra := by
  have positive : 0 < value.slots := value.kind.slots_pos
  unfold writeSlots
  split
  · rename_i wide
    rw [Array.setIfInBounds_append_left (by omega),
      Array.setIfInBounds_append_left (by simp; omega)]
  · rw [Array.setIfInBounds_append_left (by omega)]

/-- A store writes the same wherever the body declares the local, or where the woven body declares no
more. -/
theorem Executes.storeLocal (executes : frame.Executes body) (widens : Splice.Widens body woven)
    (index : Nat) (value : Value) :
    Mirrors (Splice.Roomier body woven) (Executes body) (image woven extra place) (frame.storeLocal index value)
      ((frame.image woven extra place).storeLocal index value) := by
  have wovenBody : (frame.image woven extra place).body = woven := rfl
  rw [storeLocal_eq, storeLocal_eq, executes.body_eq, wovenBody, executes.corrupt widens]
  by_cases inside : index + value.slots ≤ body.maxLocals
  · have insideWoven : index + value.slots ≤ woven.maxLocals :=
      Nat.le_trans inside widens.locals_le
    have written : writeSlots (frame.image woven extra place).locals index value =
        writeSlots frame.locals index value ++ extra :=
      writeSlots_append (by rw [executes.size_eq]; exact inside)
    rw [if_pos inside, if_pos insideWoven, written]
    exact ⟨rfl, executes.body_eq, executes.code_eq, executes.labels_eq,
      (size_writeSlots _ _ _).trans executes.size_eq⟩
  · rw [if_neg inside]
    rcases Nat.eq_or_lt_of_le widens.locals_le with same | more
    · rw [← same, if_neg inside]
      exact .inr rfl
    · exact .inl ⟨.inr more, rfl⟩

theorem Executes.storeAll (executes : frame.Executes body) (widens : Splice.Widens body woven)
    (index : Nat) (args : List Value) :
    Mirrors (Splice.Roomier body woven) (Executes body) (image woven extra place) (frame.storeAll index args)
      ((frame.image woven extra place).storeAll index args) := by
  induction args generalizing frame index with
  | nil => exact ⟨rfl, executes⟩
  | cons value rest ih =>
      rw [storeAll_cons, storeAll_cons]
      exact (executes.storeLocal widens index value).bind fun next below => ih below _

/-- A branch that the body takes goes to the relocated label. -/
theorem Executes.goto (executes : frame.Executes body) {index : Nat} {run : List Instr}
    (inserted : Splice.Inserted body index run woven) {instr : Instr} {label : Label}
    (member : instr ∈ body.code.instrs) (target : instr.target? = some label) :
    Mirrors (Splice.Roomier body woven) (Executes body) (image woven extra (Splice.relocated index run.length))
      (frame.goto label) ((frame.image woven extra place).goto label) := by
  have known : (frame.image woven extra place).labels.lookup label =
      (frame.labels.lookup label).map (Splice.relocated index run.length) := by
    rw [executes.labels_eq]
    exact inserted.lookup_labels member target
  unfold Frame.goto
  rw [known, executes.corrupt inserted.toWidens]
  cases frame.labels.lookup label with
  | none => exact .inr rfl
  | some position => exact ⟨rfl, executes.withPc position⟩

end Frame

end Weaver.Machine
