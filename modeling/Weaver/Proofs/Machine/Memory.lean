import Mathlib.Data.List.Induction
import Weaver.Proofs.Machine.Stores

/-!
# The locals as a memory

A store takes one slot or two.  What a load finds was left there by the last store that took the
first slot of the local, so the locals are a memory of cells of one and of two slots, in which a load
looks at the first slot of its cell alone.  A store that takes the first slot of a cell, without being
one to this cell, damages it for loads; a store into the upper half of a wide cell passes unnoticed.
-/

namespace Weaver.Machine

/-- Whether a store takes a slot of the cell of the given width. -/
def touches (slot width : Nat) (store : Nat × Value) : Bool :=
  store.1 < slot + width && slot < store.1 + store.2.slots

/-- The last of the stores that take a slot of a cell. -/
def lastTouch (slot width : Nat) (stores : List (Nat × Value)) : Option (Nat × Value) :=
  (stores.filter (touches slot width)).getLast?

/-- What a store leaves in a slot that it takes. -/
def left (slot : Nat) (store : Nat × Value) : Slot :=
  if slot = store.1 then .value store.2 else .top

/-- The stores of values to consecutive locals. -/
def placed : Nat → List Value → List (Nat × Value)
  | _, [] => []
  | index, value :: rest => (index, value) :: placed (index + value.slots) rest

variable {slot width : Nat} {kind : Kind} {value : Value} {store : Nat × Value}
  {stores : List (Nat × Value)}

theorem touches_iff :
    touches slot width store = true ↔ store.1 < slot + width ∧ slot < store.1 + store.2.slots := by
  simp [touches]

theorem touches_one : touches slot 1 store = occupies slot (store.1, store.2.kind) := by
  unfold touches occupies
  rw [decide_eq_decide.mpr Nat.lt_succ_iff]
  rfl

theorem lastTouch_concat (stores : List (Nat × Value)) (store : Nat × Value) :
    lastTouch slot width (stores ++ [store]) =
      if touches slot width store then some store else lastTouch slot width stores := by
  unfold lastTouch
  rw [List.filter_append, List.filter_singleton]
  cases touches slot width store with
  | true => exact List.getLast?_concat
  | false => exact congrArg _ (List.append_nil _)

theorem lastTouch_spec (last : lastTouch slot width stores = some store) :
    store ∈ stores ∧ touches slot width store = true :=
  List.mem_filter.mp (List.mem_of_getLast? last)

/-- The last store into a wide cell is the last one into its first slot, unless it begins above. -/
theorem lastTouch_one_of_ne_succ (bound : width ≤ 2)
    (below : ∀ other, lastTouch slot width stores ≠ some (slot + 1, other)) (positive : 0 < width) :
    lastTouch slot width stores = lastTouch slot 1 stores := by
  induction stores using List.reverseRecOn with
  | nil => rfl
  | append_singleton earlier store ih =>
      rw [lastTouch_concat] at below ⊢
      rw [lastTouch_concat]
      by_cases taken : touches slot width store = true
      · rw [if_pos taken] at below ⊢
        have first : touches slot 1 store = true := by
          have beside : store.1 ≠ slot + 1 := fun same => below store.2 (by rw [← same])
          rw [touches_iff] at taken ⊢
          omega
        rw [if_pos first]
      · rw [if_neg taken] at below ⊢
        have away : ¬ touches slot 1 store = true := by
          rw [touches_iff] at taken ⊢
          omega
        rw [if_neg away]
        exact ih below

/-- What a slot holds behind a store. -/
theorem getElem?_writeSlots_eq {locals : Array Slot} (inside : slot < locals.size)
    (store : Nat × Value) :
    (writeSlots locals store.1 store.2)[slot]? =
      if touches slot 1 store then some (left slot store) else locals[slot]? := by
  have positive : 0 < store.2.kind.slots := store.2.kind.slots_pos
  rw [getElem?_writeSlots store.2 inside, touches_one, left]
  by_cases here : slot = store.1
  · have occupied : occupies slot (store.1, store.2.kind) = true := by
      simp [occupies, here, positive]
    rw [if_pos here, if_pos here, if_pos occupied]
  · rw [if_neg here, if_neg here]

namespace Frame

/-- Write locals one after the other. -/
def storeEach (frame : Frame) (stores : List (Nat × Value)) : Except Fault Frame :=
  stores.foldlM (fun reached store => reached.storeLocal store.1 store.2) frame

variable {frame next : Frame} {body : Body} {args : List Value}

theorem storeEach_cons (frame : Frame) (store : Nat × Value) (stores : List (Nat × Value)) :
    frame.storeEach (store :: stores) =
      frame.storeLocal store.1 store.2 >>= fun next => next.storeEach stores :=
  List.foldlM_cons

theorem storeEach_append (frame : Frame) (front back : List (Nat × Value)) :
    frame.storeEach (front ++ back) =
      frame.storeEach front >>= fun next => next.storeEach back :=
  List.foldlM_append

theorem storeAll_eq_storeEach (frame : Frame) (index : Nat) (values : List Value) :
    frame.storeAll index values = frame.storeEach (placed index values) := by
  induction values generalizing frame index with
  | nil => rfl
  | cons value rest ih =>
      rw [storeAll_cons, placed, storeEach_cons]
      exact bind_congr fun next => ih next (index + value.slots)

/-- Stores are carried out exactly if all of them are within the declared locals. -/
theorem exists_storeEach_iff :
    (∃ next, frame.storeEach stores = .ok next) ↔
      ∀ store ∈ stores, store.1 + store.2.slots ≤ frame.body.maxLocals := by
  induction stores generalizing frame with
  | nil => exact iff_of_true ⟨frame, rfl⟩ nofun
  | cons store rest ih =>
      rw [storeEach_cons, storeLocal_eq, List.forall_mem_cons]
      by_cases inside : store.1 + store.2.slots ≤ frame.body.maxLocals
      · rw [if_pos inside]
        exact ih.trans (iff_and_self.mpr fun _ => inside)
      · rw [if_neg inside]
        exact iff_of_false nofun (fun within => inside within.1)

/-- Stores change the locals alone, and in a slot leave what the last of those that took it left. -/
theorem locals_of_storeEach (stored : frame.storeEach stores = .ok next) :
    next = frame.withLocals next.locals ∧ next.locals.size = frame.locals.size ∧
      ∀ slot < frame.locals.size, next.locals[slot]? =
        ((lastTouch slot 1 stores).map (left slot)).or frame.locals[slot]? := by
  induction stores using List.reverseRecOn generalizing next with
  | nil =>
      cases stored
      exact ⟨rfl, rfl, fun _ _ => rfl⟩
  | append_singleton earlier store ih =>
      rw [storeEach_append] at stored
      obtain ⟨middle, before, storing⟩ := bind_eq_ok_iff.mp stored
      obtain ⟨middleEq, sizeEq, held⟩ := ih before
      rw [storeEach_cons, storeLocal_eq] at storing
      split at storing
      · cases storing
        refine ⟨?_, (size_writeSlots _ _ _).trans sizeEq, fun slot inside => ?_⟩
        · rw [middleEq]
          rfl
        · rw [withLocals_locals, getElem?_writeSlots_eq (sizeEq.symm ▸ inside), lastTouch_concat]
          split
          · rfl
          · exact held slot inside
      · cases storing

/-- A load of declared locals fails on anything but a value of its kind. -/
theorem loadLocal_eq_mismatch {found : Slot} (inside : slot + kind.slots ≤ frame.body.maxLocals)
    (held : frame.locals[slot]? = some found)
    (unfit : ∀ value : Value, found = .value value → value.kind ≠ kind) :
    frame.loadLocal kind slot = .error (frame.corrupt (.localMismatch slot found kind)) := by
  have within : ¬ frame.body.maxLocals < slot + kind.slots := Nat.not_lt.mpr inside
  simp only [loadLocal, checkLocal, within, if_false, held, Option.getD_some]
  cases found with
  | value value => exact if_neg (unfit value rfl)
  | top | empty => rfl

/-- A load finds what the last store into the first slot of its cell stored, or what was there before
the stores. -/
theorem loadLocal_storeEach_iff (sized : frame.locals.size = frame.body.maxLocals)
    (stored : frame.storeEach stores = .ok next) :
    next.loadLocal kind slot = .ok value ↔ value.kind = kind ∧
      (lastTouch slot 1 stores = some (slot, value) ∨
        lastTouch slot 1 stores = none ∧ frame.loadLocal kind slot = .ok value) := by
  obtain ⟨nextEq, sizeEq, held⟩ := locals_of_storeEach stored
  have bodyEq : next.body = frame.body := by
    rw [nextEq]
    rfl
  rw [loadLocal_eq_ok_iff, loadLocal_eq_ok_iff, bodyEq]
  by_cases inside : slot + kind.slots ≤ frame.body.maxLocals
  · have positive : 0 < kind.slots := kind.slots_pos
    rw [held slot (by omega)]
    cases last : lastTouch slot 1 stores with
    | none => simp [inside]
    | some store =>
        obtain ⟨index, other⟩ := store
        have below : index < slot + 1 ∧ slot < index + other.slots :=
          touches_iff.mp (lastTouch_spec last).2
        by_cases here : slot = index
        · simp [left, here, here ▸ inside]
        · simp [left, here, Ne.symm here]
  · simp only [inside, false_and, and_false, or_false, false_iff]
    rintro ⟨kindEq, last⟩
    have fits := exists_storeEach_iff.mp ⟨next, stored⟩ _ (lastTouch_spec last).1
    rw [Value.slots, kindEq] at fits
    exact inside fits

/-- A method is entered with its locals empty but for the arguments. -/
theorem exists_blank_of_enter (entered : Frame.enter body args = .ok frame) :
    ∃ blank : Frame, blank.body = body ∧ blank.locals = .replicate body.maxLocals .empty ∧
      blank.storeEach (placed 0 args) = .ok frame := by
  unfold Frame.enter at entered
  dsimp only at entered
  split at entered
  · cases entered
  · split at entered
    · cases entered
    · rw [storeAll_eq_storeEach] at entered
      exact ⟨_, rfl, rfl, entered⟩

/-- Behind stores into the locals of a method, a load finds what was stored last into the first slot of
its cell, the arguments of the method included. -/
theorem loadLocal_entered_iff (entered : Frame.enter body args = .ok frame)
    (stored : frame.storeEach stores = .ok next) :
    next.loadLocal kind slot = .ok value ↔
      value.kind = kind ∧ lastTouch slot 1 (placed 0 args ++ stores) = some (slot, value) := by
  obtain ⟨blank, bodyEq, localsEq, placedEq⟩ := exists_blank_of_enter entered
  have sized : blank.locals.size = blank.body.maxLocals := by
    rw [bodyEq, localsEq, Array.size_replicate]
  have storedAll : blank.storeEach (placed 0 args ++ stores) = .ok next := by
    rw [storeEach_append, placedEq]
    exact stored
  have nothing : blank.loadLocal kind slot ≠ .ok value := by
    intro loaded
    have held := (loadLocal_eq_ok_iff.mp loaded).2.2
    rw [localsEq, Array.getElem?_replicate] at held
    split at held <;> cases held
  rw [loadLocal_storeEach_iff sized storedAll]
  simp [nothing]

/-- What a load of a cell finds behind a store that takes a slot of it. -/
theorem loadLocal_of_touched {index : Nat} {other : Value}
    (loaded : frame.loadLocal value.kind slot = .ok value)
    (stored : frame.storeLocal index other = .ok next)
    (taken : touches slot value.slots (index, other) = true) :
    next.loadLocal value.kind slot =
      if index = slot + 1 then .ok value
      else if index = slot ∧ other.kind = value.kind then .ok other
      else .error
        (frame.corrupt (.localMismatch slot (left slot (index, other)) value.kind)) := by
  obtain ⟨within, _, held⟩ := loadLocal_eq_ok_iff.mp loaded
  have inside : slot < frame.locals.size := (Array.getElem?_eq_some_iff.mp held).1
  rw [storeLocal_eq] at stored
  split at stored
  · cases stored
    have bound : value.slots ≤ 2 := value.kind.slots_le_two
    rw [touches_iff] at taken
    by_cases above : index = slot + 1
    · rw [if_pos above]
      refine loadLocal_eq_ok_iff.mpr ⟨within, rfl, ?_⟩
      have apart : slot < index ∨ index + other.slots ≤ slot := by omega
      rw [withLocals_locals, getElem?_writeSlots_of_ne apart, held]
    · rw [if_neg above]
      have first : touches slot 1 (index, other) = true :=
        touches_iff.mpr ⟨by omega, taken.2⟩
      have leaves : (frame.withLocals (writeSlots frame.locals index other)).locals[slot]? =
          some (left slot (index, other)) := by
        have written := getElem?_writeSlots_eq inside (index, other)
        rwa [if_pos first] at written
      split
      · rename_i same
        obtain ⟨rfl, kindEq⟩ := same
        refine loadLocal_eq_ok_iff.mpr ⟨within, kindEq, ?_⟩
        rw [leaves, left, if_pos rfl]
      · rename_i differs
        refine loadLocal_eq_mismatch within leaves fun found foundEq kindEq => ?_
        unfold left at foundEq
        split at foundEq
        · rename_i here
          cases foundEq
          exact differs ⟨here.symm, kindEq⟩
        · cases foundEq
  · cases stored

/-- The locals are a memory of cells of one and of two slots.  Stores are carried out exactly if they
are all within the declared locals.  A load then finds what the last store into the first slot of its
cell stored, if this was a store of the kind to this very cell, and what was there before if there was
none; and among the stores are the arguments with which the method was entered.  This is the last store
into any slot of the cell unless the last one begins in the upper half of the cell.  A store that takes
a slot of a cell decides what a load of the cell finds: what it stored if it is of the same kind and to
the same slot, and otherwise a mismatch, but nothing is noticed of a store that begins in the upper
half. -/
theorem loadLocal_storeEach (frame next : Frame) (stores : List (Nat × Value)) (kind : Kind)
    (slot index : Nat) (value other : Value) (body : Body) (args : List Value) :
    ((∃ reached, frame.storeEach stores = .ok reached) ↔
      ∀ store ∈ stores, store.1 + store.2.slots ≤ frame.body.maxLocals) ∧
    (frame.locals.size = frame.body.maxLocals → frame.storeEach stores = .ok next →
      (next.loadLocal kind slot = .ok value ↔ value.kind = kind ∧
        (lastTouch slot 1 stores = some (slot, value) ∨
          lastTouch slot 1 stores = none ∧ frame.loadLocal kind slot = .ok value))) ∧
    (Frame.enter body args = .ok frame → frame.storeEach stores = .ok next →
      (next.loadLocal kind slot = .ok value ↔ value.kind = kind ∧
        lastTouch slot 1 (placed 0 args ++ stores) = some (slot, value)) ∧
      ((∀ above, lastTouch slot kind.slots (placed 0 args ++ stores) ≠ some (slot + 1, above)) →
        (next.loadLocal kind slot = .ok value ↔ value.kind = kind ∧
          lastTouch slot kind.slots (placed 0 args ++ stores) = some (slot, value)))) ∧
    (frame.loadLocal value.kind slot = .ok value → frame.storeLocal index other = .ok next →
      touches slot value.slots (index, other) = true →
      next.loadLocal value.kind slot =
        if index = slot + 1 then .ok value
        else if index = slot ∧ other.kind = value.kind then .ok other
        else .error
          (frame.corrupt (.localMismatch slot (left slot (index, other)) value.kind))) := by
  refine ⟨exists_storeEach_iff, loadLocal_storeEach_iff, ?_, loadLocal_of_touched⟩
  intro entered stored
  have found := @loadLocal_entered_iff slot kind value _ _ _ _ _ entered stored
  refine ⟨found, fun beside => ?_⟩
  rw [found, lastTouch_one_of_ne_succ kind.slots_le_two beside kind.slots_pos]

/-- A method that writes into the upper half of a wide local before it loads the local. -/
def splitting : Body :=
  { Body.ofNames "a/B" "m" ⟨[], .long⟩ ⟨9⟩ with
    code := .ofList
      [.const (.long 5), .store .long 0, .const (.int 1), .store .int 1, .load .long 0,
        .ret (some .long)]
    maxStack := 2
    maxLocals := 2 }

/-- A frame of this method, with the given locals. -/
def splittingFrame (locals : Array Slot) : Frame :=
  ⟨splitting, splitting.code.instrs.toArray, [], 0, [], locals⟩

theorem enter_splitting :
    Frame.enter splitting [] = .ok (splittingFrame #[.empty, .empty]) := rfl

/-- The stores of this method. -/
def splittingStores : List (Nat × Value) := [(0, .long 5), (1, .int 1)]

theorem storeEach_splitting :
    (splittingFrame #[.empty, .empty]).storeEach splittingStores =
      .ok (splittingFrame #[.value (.long 5), .value (.int 1)]) := rfl

theorem loadLocal_storeEach_splitting :
    (∀ store ∈ splittingStores, store.1 + store.2.slots ≤ splitting.maxLocals) ∧
      Frame.enter splitting [] = .ok (splittingFrame #[.empty, .empty]) ∧
      (splittingFrame #[.empty, .empty]).storeEach splittingStores =
        .ok (splittingFrame #[.value (.long 5), .value (.int 1)]) ∧
      (∀ other, lastTouch 1 Kind.int.slots splittingStores ≠ some (2, other)) ∧
      lastTouch 1 Kind.int.slots splittingStores = some (1, .int 1) ∧
      (splittingFrame #[.value (.long 5), .value (.int 1)]).loadLocal .int 1 = .ok (.int 1) ∧
      (splittingFrame #[.value (.long 5), .value (.int 1)]).loadLocal .long 0 = .ok (.long 5) ∧
      touches 0 2 (0, .int 3) = true ∧
      (splittingFrame #[.value (.int 3), .value (.int 1)]).loadLocal .long 0 =
        .error (splittingFrame #[.value (.long 5), .value (.int 1)] |>.corrupt
          (.localMismatch 0 (.value (.int 3)) .long)) := by
  let blank := splittingFrame #[.empty, .empty]
  let split := splittingFrame #[.value (.long 5), .value (.int 1)]
  obtain ⟨inside, wide, _⟩ := loadLocal_storeEach blank split splittingStores .long 0 0 (.long 5)
    (.long 5) splitting []
  obtain ⟨_, _, narrow, _⟩ := loadLocal_storeEach blank split splittingStores .int 1 1 (.int 1)
    (.int 1) splitting []
  obtain ⟨_, _, _, damaged⟩ := loadLocal_storeEach split
    (splittingFrame #[.value (.int 3), .value (.int 1)]) [] .long 0 0 (.long 5) (.int 3) splitting []
  have alone : ∀ above, lastTouch 1 Kind.int.slots splittingStores ≠ some (2, above) := by
    intro above
    simp [show lastTouch 1 Kind.int.slots splittingStores = some (1, .int 1) from rfl]
  have loaded : split.loadLocal .long 0 = .ok (.long 5) :=
    (wide rfl storeEach_splitting).mpr ⟨rfl, .inl rfl⟩
  refine ⟨inside.mp ⟨split, storeEach_splitting⟩, enter_splitting, storeEach_splitting, alone, rfl,
    ((narrow enter_splitting storeEach_splitting).2 alone).mpr ⟨rfl, rfl⟩, loaded, rfl, ?_⟩
  exact damaged loaded rfl rfl

/-- A load does not look at the upper half of its cell: a wide value is found that a later store has
damaged. -/
theorem not_always_last_store :
    ¬ ∀ (body : Body) (args : List Value) (frame next : Frame) (stores : List (Nat × Value)),
      Frame.enter body args = .ok frame → frame.storeEach stores = .ok next →
      ∀ kind slot value, next.loadLocal kind slot = .ok value → value.kind = kind ∧
        lastTouch slot kind.slots (placed 0 args ++ stores) = some (slot, value) := by
  intro always
  have last := (always _ _ _ _ _ enter_splitting storeEach_splitting .long 0 (.long 5) rfl).2
  exact absurd last (by decide)

end Frame

end Weaver.Machine
