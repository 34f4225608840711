import Weaver.Error
import Weaver.Machine.Intrinsic
import Weaver.Proofs.Machine.Wrappers

/-!
# Values that override a result

The value that listeners stored in a wrapper is returned if it fits the result type of the method.
An accessor finds out in two places: the wrapper refuses to give a value of another kind, and the cast
behind it refuses the objects of other classes.
-/

namespace Weaver

theorem Ty.castName?_eq_objectClass_iff {ty : Ty} :
    ty.castName? = some Ty.objectClass ↔ ty = .object Ty.objectClass := by
  cases ty with
  | object name => simp [castName?]
  | array element =>
      have first : (Ty.array element).text.toList.head? = some '[' := by
        simp [text]
      have different : (Ty.array element).text ≠ Ty.objectClass := by
        intro same
        rw [same] at first
        revert first
        decide
      simp [castName?, different]
  | _ => simp [castName?]

namespace Machine

/-- A value fits a result type if it is of its kind and, where that is a reference, it is null or an
object of the class of the type; the class of all objects takes every reference. -/
def Fits (heap : Heap) (ret : Ty) (value : Value) : Prop :=
  ret.kind? = some value.kind ∧
    (ret.isReference = true → value = .null ∨ ret = .object Ty.objectClass ∨
      ∃ object, heap.deref? value = some object ∧ ret.castName? = some object.className)

/-- What a cancelled method comes to, with the value that was stored in the wrapper. -/
inductive Overrides (heap : Heap) (ret : Ty) :
    Option Value → Except Fault (Option Value) → Prop
  | nothing {stored} (void : ret.kind? = none) : Overrides heap ret stored (.ok none)
  | zero {kind} (kindEq : ret.kind? = some kind) :
      Overrides heap ret none (.ok (some (.zero kind)))
  | stored {value} (fits : Fits heap ret value) :
      Overrides heap ret (some value) (.ok (some value))
  | misfit {kind value fault} (kindEq : ret.kind? = some kind) (misfits : ¬ Fits heap ret value)
      (headed : fault.headedMessage = "Emulation - " ++ fault.message) :
      Overrides heap ret (some value) (.error fault)

variable {heap : Heap} {ret : Ty} {accessor : ReturnAccessor} {value : Value}
  {stored? : Option Value} {fault : Fault}

/-- A check for a class passes null, and the objects of the class. -/
theorem Heap.checkCast_eq_ok_iff {className : String} :
    heap.checkCast value className = .ok () ↔
      value.handle? = none ∨ ∃ object, heap.deref? value = some object ∧
        (className = Ty.objectClass ∨ object.className = className) := by
  unfold Heap.checkCast Heap.deref?
  cases value.handle? with
  | none => simp
  | some handle =>
      cases found : heap.get? handle with
      | none => simp [found]
      | some object => simp [found, or_iff_not_imp_left]

theorem Heap.headed_of_checkCast {className : String}
    (failed : heap.checkCast value className = .error fault) :
    fault.headedMessage = "Emulation - " ++ fault.message := by
  unfold Heap.checkCast at failed
  split at failed
  · cases failed
  · split at failed
    · cases failed
      rfl
    · split at failed
      · cases failed
      · cases failed
        rfl

theorem fits_of_uncast (kindEq : ret.kind? = some value.kind)
    (uncast : ret.castName?.filter (· ≠ Ty.objectClass) = none) : Fits heap ret value := by
  refine ⟨kindEq, fun reference => .inr (.inl ?_)⟩
  apply Ty.castName?_eq_objectClass_iff.mp
  cases ret with
  | object name | array element => simpa [Ty.castName?, Option.filter] using uncast
  | _ => cases reference

/-- A reference whose accessor casts it fits exactly if the check for that class passes it. -/
theorem fits_iff_checkCast (heap : Heap) {className : String} (kindEq : ret.kind? = some value.kind)
    (cast : ret.castName?.filter (· ≠ Ty.objectClass) = some className) :
    Fits heap ret value ↔ heap.checkCast value className = .ok () := by
  obtain ⟨castName, other⟩ := Option.filter_eq_some_iff.mp cast
  have notObject : className ≠ Ty.objectClass := by simpa using other
  have notAll : ret ≠ .object Ty.objectClass := by
    intro all
    rw [Ty.castName?_eq_objectClass_iff.mpr all] at castName
    exact notObject (Option.some.inj castName).symm
  obtain ⟨isReference, reference⟩ : ret.isReference = true ∧ value.kind = .reference := by
    cases ret <;> cases castName <;> exact ⟨rfl, (Option.some.inj kindEq).symm⟩
  have nullIff : value = .null ↔ value.handle? = none := by
    cases value <;> simp [Value.handle?, Value.kind] at reference ⊢
  rw [Heap.checkCast_eq_ok_iff, Fits, castName, ← nullIff]
  simp only [kindEq, isReference, notAll, notObject, false_or, true_and, forall_const,
    Option.some.injEq, eq_comm (a := className)]

/-- A wrapper refuses to give a value of another kind. -/
theorem Intrinsic.returnValue_cases {kind : Kind} (method : MethodRef) (stored? : Option Value)
    (retEq : method.signature.ret.kind? = some kind) :
    (stored? = none ∧ Intrinsic.returnValue method stored? = .ok (.zero kind)) ∨
      (∃ value, stored? = some value ∧ value.kind = kind ∧
        Intrinsic.returnValue method stored? = .ok value) ∨
      ∃ value, stored? = some value ∧ value.kind ≠ kind ∧
        Intrinsic.returnValue method stored? = .error (.overrideMismatch value method) := by
  unfold Intrinsic.returnValue
  rw [retEq]
  cases stored? with
  | none => exact .inl ⟨rfl, rfl⟩
  | some value =>
      by_cases same : value.kind = kind
      · exact .inr (.inl ⟨value, rfl, same, if_pos same⟩)
      · exact .inr (.inr ⟨value, rfl, same, if_neg same⟩)

theorem Intrinsic.kind_of_returnValue {kind : Kind} {method : MethodRef}
    (retEq : method.signature.ret.kind? = some kind)
    (read : Intrinsic.returnValue method stored? = .ok value) : value.kind = kind := by
  rcases Intrinsic.returnValue_cases method stored? retEq with
    ⟨_, given⟩ | ⟨_, _, kindEq, given⟩ | ⟨_, _, _, given⟩
  · cases given.symm.trans read
    exact Value.kind_zero kind
  · cases given.symm.trans read
    exact kindEq
  · cases given.symm.trans read

theorem Heap.checkCast_zero (heap : Heap) (kind : Kind) (className : String) :
    heap.checkCast (.zero kind) className = .ok () := by
  cases kind <;> rfl

/-- A value behind a cast, if there is one. -/
def Heap.castTo (heap : Heap) (value : Value) : Option String → Except Fault (Option Value)
  | none => .ok (some value)
  | some className => (heap.checkCast value className).map fun _ => some value

end Machine

/-- What an accessor gives for the value that is stored in a wrapper, with its cast. -/
def ReturnAccessor.fetch (accessor : ReturnAccessor) (heap : Machine.Heap)
    (stored? : Option Machine.Value) : Except Machine.Fault (Option Machine.Value) :=
  Machine.Intrinsic.returnValue accessor.method stored? >>= fun value =>
    heap.castTo value accessor.cast

namespace Machine

/-- The accessor for a result type finds out whether the stored value overrides it. -/
theorem overrides_fetch (heap : Heap) {ret : Ty} {kind : Kind} {accessor : ReturnAccessor}
    (stored? : Option Value) (kindEq : ret.kind? = some kind)
    (retEq : accessor.method.signature.ret.kind? = some kind)
    (castEq : accessor.cast = ret.castName?.filter (· ≠ Ty.objectClass)) :
    Overrides heap ret stored? (accessor.fetch heap stored?) := by
  unfold ReturnAccessor.fetch
  rcases Intrinsic.returnValue_cases accessor.method stored? retEq with
    ⟨rfl, read⟩ | ⟨value, rfl, rfl, read⟩ | ⟨value, rfl, other, read⟩
  · rw [read]
    change Overrides heap ret none (heap.castTo (.zero kind) accessor.cast)
    cases accessor.cast with
    | none => exact .zero kindEq
    | some className =>
        rw [Heap.castTo, Heap.checkCast_zero]
        exact .zero kindEq
  · rw [read]
    change Overrides heap ret (some value) (heap.castTo value accessor.cast)
    cases cast : accessor.cast with
    | none => exact .stored (fits_of_uncast kindEq (castEq.symm.trans cast))
    | some className =>
        have fitsIff := fits_iff_checkCast heap kindEq (castEq.symm.trans cast)
        rw [Heap.castTo]
        cases checked : heap.checkCast value className with
        | ok => exact .stored (fitsIff.mpr checked)
        | error fault =>
            apply Overrides.misfit kindEq
            · intro fits
              cases checked.symm.trans (fitsIff.mp fits)
            · exact Heap.headed_of_checkCast checked
  · rw [read]
    apply Overrides.misfit kindEq
    · rintro ⟨sameKind, _⟩
      exact other (Option.some.inj (sameKind.symm.trans kindEq))
    · rfl

end Machine

end Weaver
