import Weaver.Proofs.Engine.Redirection
import Weaver.Proofs.Splice.Verified

/-!
# Redirected bodies stay verified

The calls of handlers are straight code that starts and ends with nothing on the stack.  With a
return behind them they are a body of their own; in front of a body they leave its instructions the
depths that they have, unless there are none: control then falls off the end behind the last call.
-/

namespace Weaver

namespace Run.Builder

variable {front : List Instr} {kind? : Option Kind} {last : Builder}

/-- Straight code with a return behind it is balanced, and its peak is the highest depth in it. -/
theorem Straight.leaves (straight : Straight front)
    (emitted : empty.emitAll (front ++ [.ret kind?]) = (.ok (), last)) :
    Body.Balanced (front ++ [.ret kind?]) ∧
      IsGreatest (Body.heights (front ++ [.ret kind?])) last.peak := by
  have unbranched : ∀ instr ∈ front ++ [.ret kind?],
      instr.definition? = none ∧ instr.target? = none := by
    intro instr member
    rcases List.mem_append.mp member with inFront | atEnd
    · exact ⟨(straight instr inFront).1, (straight instr inFront).2.1⟩
    · cases List.mem_singleton.mp atEnd
      exact ⟨rfl, rfl⟩
  have coherent : Coherent (front ++ [.ret kind?]) := by
    apply coherent_of_unbranched unbranched _ emitted
    intro origin instr before here
    rw [List.length_append, List.length_singleton] at before
    rw [List.getElem?_append_left (by omega)] at here
    exact (straight instr (List.mem_of_getElem? here)).2.2
  have atEnd : (front ++ [.ret kind?])[front.length]? = some (.ret kind?) := by simp
  refine ⟨coherent.balanced emitted ?_ ?_ ?_, coherent.isGreatest_peak emitted (by simp)⟩
  · intro label first second defined
    cases (unbranched _ defined.mem).1
  · intro instr member label target
    cases (unbranched instr member).2.symm.trans target
  · obtain ⟨_, _, _, reachableEq, _⟩ := stage_succ emitted atEnd
    rw [← stage_length emitted, List.length_append, List.length_singleton, reachableEq]
    exact Bool.and_false _

end Run.Builder

namespace Splice

open Body

/-- Control that can pass a body falls off its end. -/
theorem Passable.stackDepths_eq {body : Body} (passable : Passable body.code.instrs)
    (nonempty : body.code.instrs ≠ []) (unique : Code.UniqueLabels body.code.instrs) :
    body.stackDepths = .error (.fallsOffEnd body.ref) := by
  obtain ⟨positions, collected⟩ := (Code.labelPositions_isOk_iff body.code).mpr unique
  obtain ⟨last, visits, outcome⟩ := stackDepths_visits nonempty collected
  have valid := Survey.valid_of_visits collected visits
  cases analysed : body.stackDepths with
  | ok depths =>
      have balanced := (stackDepths_isOk_iff nonempty).mp ⟨depths, analysed⟩
      exact absurd ((passable.ends_iff 0).mpr rfl) (balanced.inside 0)
  | error fault =>
      rw [analysed] at outcome
      obtain ⟨state, pending, failed⟩ := outcome
      have reached := valid.pending_reached pending
      unfold visit at failed
      split at failed
      · rename_i inside
        have here : body.code.instrs[state.1]? = some body.code.instrs.toArray[state.1] := by simp
        split at failed
        · rename_i known seen
          have knows : last.Knows (state.1, known) := by
            rw [Survey.Knows, Vector.getElem?_eq_getElem inside, seen]
          rw [if_pos (passable.agree (valid.known_reached _ knows) reached)] at failed
          cases failed
        · obtain ⟨found, following⟩ := (successors_isOk_iff collected body.ref).mpr
            ⟨passable.enough reached here, fun label target =>
              passable.targets _ (List.mem_of_getElem? here) label target⟩
          rw [following] at failed
          cases failed
      · cases failed
        rfl

end Splice

namespace Redirect

open Run.Builder

variable {kind : RedirectKind} {signature : Signature} {body redirected : Body}
  {handlers : List MethodRef} {run : Run}

theorem straight_callOf (signature : Signature) (handler : MethodRef) :
    Straight (callOf signature handler) := by
  intro instr member
  rcases List.mem_append.mp member with inLoads | atCall
  · obtain ⟨load, _, rfl⟩ := List.mem_map.mp inLoads
    exact ⟨rfl, rfl, rfl⟩
  · cases List.mem_singleton.mp atCall
    exact ⟨rfl, rfl, rfl⟩

theorem straight_prependInstrs (signature : Signature) (handlers : List MethodRef) :
    Straight (prependInstrs signature handlers) := by
  intro instr member
  obtain ⟨handler, _, inCall⟩ := List.mem_flatMap.mp member
  rcases List.mem_append.mp inCall with called | discarded
  · exact straight_callOf signature handler instr called
  · rw [discardResult_eq] at discarded
    cases List.eq_of_mem_replicate discarded
    exact ⟨rfl, rfl, rfl⟩

theorem prependInstrs_ne_nil (signature : Signature) (nonempty : handlers ≠ []) :
    prependInstrs signature handlers ≠ [] := by
  obtain ⟨first, others, rfl⟩ := List.exists_cons_of_ne_nil nonempty
  simp [prependInstrs, callOf]

/-- Handlers that replace a body leave one that is verified, and whose declared stack is exact. -/
theorem verified_of_replace (nonempty : handlers ≠ [])
    (made : Run.ofList (instrs .replace signature handlers) = .ok run)
    (instrsEq : redirected.code.instrs = instrs .replace signature handlers)
    (stackEq : redirected.maxStack = run.peak) :
    (∃ depths, redirected.stackDepths = .ok depths) ∧ redirected.validate = .ok () ∧
      redirected.requiredMaxStack = .ok redirected.maxStack := by
  obtain ⟨front, final, rfl⟩ := (List.eq_nil_or_concat' handlers).resolve_left nonempty
  obtain ⟨last, emitted, peakEq⟩ := exists_emitAll_of_ofList made
  have straight := (straight_prependInstrs signature front).append
    (straight_callOf signature final)
  rw [instrs, replaceInstrs_concat] at emitted instrsEq
  obtain ⟨balanced, greatest⟩ := straight.leaves emitted
  rw [← instrsEq] at balanced greatest
  have filled : redirected.code.instrs ≠ [] := by
    rw [instrsEq]
    simp
  refine ⟨(Body.stackDepths_isOk_iff filled).mpr balanced,
    Body.validate_eq_ok_iff.mpr ⟨balanced.labels, ?_⟩, ?_⟩
  · intro instr member label target
    rw [instrsEq] at member
    rcases List.mem_append.mp member with inFront | atEnd
    · cases (straight instr inFront).2.1.symm.trans target
    · cases List.mem_singleton.mp atEnd
      cases target
  · rw [stackEq, peakEq]
    exact balanced.requiredMaxStack_eq_ok filled greatest

/-- The code that runs handlers before a body can stand anywhere, and its peak is the highest depth in
it. -/
theorem passable_of_prepend (nonempty : handlers ≠ []) (narrow : signature.totalSlots ≤ slotLimit)
    (signatures : ∀ handler ∈ handlers, handler.signature = signature)
    (made : Run.ofList (instrs .prepend signature handlers) = .ok run) :
    Splice.Passable (prependInstrs signature handlers) ∧
      IsGreatest (Body.heights (prependInstrs signature handlers)) run.peak := by
  obtain ⟨last, emitted, peakEq⟩ := exists_emitAll_of_ofList made
  have straight := straight_prependInstrs signature handlers
  have coherent := straight.coherent emitted
  obtain ⟨next, again, depthEq, _⟩ := @emitAll_prependInstrs signature empty handlers rfl narrow
    signatures
  cases (Prod.mk.inj (emitted.symm.trans again)).2
  rw [peakEq]
  refine ⟨Splice.passable_of_coherent coherent emitted ?_ (straight.emitAll emitted).2.1 depthEq,
    coherent.isGreatest_peak emitted (prependInstrs_ne_nil signature nonempty)⟩
  intro instr member label target
  cases (straight instr member).2.1.symm.trans target

/-- A redirection that was carried out puts a run in place. -/
theorem exists_place_of_apply {redirect : Redirect} {entries : List Diagnostic}
    (applied : redirect.apply body = (.ok (some redirected), entries)) :
    redirect.bound body ≠ [] ∧ ∃ run,
      Run.ofList (instrs redirect.kind (handlerSignature body) (redirect.bound body)) = .ok run ∧
      place redirect.kind body run = .ok redirected := by
  unfold apply at applied
  dsimp only at applied
  split at applied
  · cases applied
  · rename_i unbound
    refine ⟨unbound, ?_⟩
    unfold withHandlers at applied
    split at applied
    · cases applied
    · rename_i handled
      cases applied
      split at handled
      · cases handled
      · rename_i run made
        split at handled
        · cases handled
        · rename_i placed
          cases handled
          exact ⟨run, made, placed⟩

theorem stack_of_replace (placed : place .replace body run = .ok redirected) :
    redirected.maxStack = run.peak := by
  cases placed
  rfl

theorem stack_of_prepend (placed : place .prepend body run = .ok redirected) :
    redirected.maxStack = max body.maxStack run.peak := by
  cases placed
  rfl

/-- Handlers that run before code leave it verified, and every instruction its depth. -/
theorem verified_of_prepend {depths : List (Option Nat)} {required : Nat}
    (redirects : Redirects .prepend body handlers redirected)
    (passable : Splice.Passable (prependInstrs (handlerSignature body) handlers))
    (greatest : IsGreatest (Body.heights (prependInstrs (handlerSignature body) handlers)) run.peak)
    (stackEq : redirected.maxStack = max body.maxStack run.peak)
    (filled : body.code.instrs ≠ []) (analysed : body.stackDepths = .ok depths)
    (found : body.requiredMaxStack = .ok required) (covered : required ≤ body.maxStack) :
    ∃ grown, redirected.stackDepths = .ok grown ∧
      (∃ raised, redirected.requiredMaxStack = .ok raised ∧ raised ≤ redirected.maxStack) ∧
      ∀ position < body.code.instrs.length,
        grown[(prependInstrs (handlerSignature body) handlers).length + position]? =
          depths[position]? := by
  have balanced := (Body.stackDepths_isOk_iff filled).mp ⟨depths, analysed⟩
  have peakLe : 0 + run.peak ≤ slotLimit :=
    (Nat.zero_add _).trans_le (Body.le_of_mem_heights greatest.1)
  have room := Splice.HasRoom.of_peak balanced (Body.reaches_start _) greatest peakLe
  have records := Body.records_of_stackDepths filled analysed
  have inserted := redirects.inserted balanced.labels
  have grownFilled := inserted.ne_nil filled
  obtain ⟨grown, analysedGrown⟩ :=
    (Body.stackDepths_isOk_iff grownFilled).mpr (inserted.balanced passable room balanced)
  have start : depths[0]? = some (some 0) := (records.known_iff 0 0).mpr (Body.reaches_start _)
  obtain ⟨raised, foundRaised, bounded, _⟩ :=
    inserted.exists_requiredMaxStack passable greatest peakLe analysed start found
  refine ⟨grown, analysedGrown, ⟨raised, foundRaised, ?_⟩, ?_⟩
  · rw [stackEq]
    rw [Nat.zero_add] at bounded
    exact bounded.trans (max_le_max_right _ covered)
  · intro position inside
    have grownRecords := Body.records_of_stackDepths grownFilled analysedGrown
    have kept := inserted.getElem?_records passable room records grownRecords inside
    rwa [Splice.relocated, if_neg (Nat.not_lt_zero _), Nat.add_comm] at kept

/-- Control falls off the end behind handlers that run before no code. -/
theorem stackDepths_of_prepend_nothing
    (redirects : Redirects .prepend body handlers redirected) (nonempty : handlers ≠ [])
    (passable : Splice.Passable (prependInstrs (handlerSignature body) handlers))
    (empty : body.code.instrs = []) :
    redirected.stackDepths = .error (.fallsOffEnd redirected.ref) := by
  have instrsEq : redirected.code.instrs = prependInstrs (handlerSignature body) handlers := by
    rw [redirects.instrs_eq, kept, empty, List.append_nil]
    rfl
  have filled := prependInstrs_ne_nil (handlerSignature body) nonempty
  rw [← instrsEq] at passable filled
  refine passable.stackDepths_eq filled ?_
  rw [instrsEq]
  exact Code.uniqueLabels_of_unlabelled (label_not_mem_instrs .prepend _ handlers)

/-- A redirected body stays verified.  It consists of a run and of the code that is kept, and it
validates.  Its depths are known exactly if the code was replaced or there is code that is kept; then
its declared stack covers them, and every instruction that is kept has the depth it had.  Where the
run stands before a body without code, control falls off the end behind it. -/
structure Verifies (kind : RedirectKind) (body : Body) (depths : List (Option Nat))
    (run : List Instr) (redirected : Body) : Prop where
  instrs_eq : redirected.code.instrs = run ++ kept kind body
  valid : redirected.validate = .ok ()
  known_iff : (∃ grown, redirected.stackDepths = .ok grown) ↔
    kind = .replace ∨ body.code.instrs ≠ []
  covered : ∀ grown, redirected.stackDepths = .ok grown →
    ∃ raised, redirected.requiredMaxStack = .ok raised ∧ raised ≤ redirected.maxStack
  keeps : ∀ grown, redirected.stackDepths = .ok grown →
    ∀ position < (kept kind body).length, grown[run.length + position]? = depths[position]?
  falls : kind = .prepend → body.code.instrs = [] →
    redirected.stackDepths = .error (.fallsOffEnd redirected.ref)

theorem Redirects.verifies_of_replace (redirects : Redirects .replace body handlers redirected)
    (nonempty : handlers ≠ [])
    (made : Run.ofList (instrs .replace (handlerSignature body) handlers) = .ok run)
    (placed : place .replace body run = .ok redirected) (depths : List (Option Nat)) :
    Verifies .replace body depths (instrs .replace (handlerSignature body) handlers)
      redirected := by
  obtain ⟨known, valid, exact⟩ := verified_of_replace nonempty made
    (redirects.instrs_eq.trans (List.append_nil _)) (stack_of_replace placed)
  exact
    { instrs_eq := redirects.instrs_eq
      valid
      known_iff := iff_of_true known (.inl rfl)
      covered := fun _ _ => ⟨_, exact, Nat.le_refl _⟩
      keeps := fun _ _ _ inside => absurd inside (Nat.not_lt_zero _)
      falls := by rintro ⟨⟩ }

theorem Redirects.verifies_of_prepend {depths : List (Option Nat)} {required : Nat}
    (redirects : Redirects .prepend body handlers redirected) (nonempty : handlers ≠ [])
    (narrow : (handlerSignature body).totalSlots ≤ slotLimit)
    (signatures : ∀ handler ∈ handlers, handler.signature = handlerSignature body)
    (made : Run.ofList (instrs .prepend (handlerSignature body) handlers) = .ok run)
    (placed : place .prepend body run = .ok redirected)
    (analysed : body.stackDepths = .ok depths) (valid : body.validate = .ok ())
    (found : body.requiredMaxStack = .ok required) (covered : required ≤ body.maxStack) :
    Verifies .prepend body depths (instrs .prepend (handlerSignature body) handlers)
      redirected := by
  obtain ⟨passable, greatest⟩ := passable_of_prepend nonempty narrow signatures made
  have inserted := redirects.inserted (Body.validate_eq_ok_iff.mp valid).1
  have falls : body.code.instrs = [] →
      redirected.stackDepths = .error (.fallsOffEnd redirected.ref) :=
    stackDepths_of_prepend_nothing redirects nonempty passable
  have stays := fun filled : body.code.instrs ≠ [] =>
    verified_of_prepend redirects passable greatest (stack_of_prepend placed) filled analysed found
      covered
  have filled : ∀ grown, redirected.stackDepths = .ok grown → body.code.instrs ≠ [] := by
    intro grown known empty
    cases (falls empty).symm.trans known
  refine
    { instrs_eq := redirects.instrs_eq
      valid := (inserted.validate_iff passable).mpr valid
      known_iff := ⟨?_, ?_⟩
      covered := ?_
      keeps := ?_
      falls := fun _ => falls }
  · rintro ⟨grown, known⟩
    exact .inr (filled grown known)
  · rintro (⟨⟨⟩⟩ | filled)
    obtain ⟨grown, known, _⟩ := stays filled
    exact ⟨grown, known⟩
  · intro grown known
    obtain ⟨_, _, stack, _⟩ := stays (filled grown known)
    exact stack
  · intro grown known
    obtain ⟨same, knownSame, _, keeps⟩ := stays (filled grown known)
    cases known.symm.trans knownSame
    exact keeps

end Redirect

namespace Engine

open Redirect

/-- Redirected bodies stay verified, except for bodies without code that are to be kept.  Let the
depths of a body be known, let it validate, and let its declared stack cover them.  If it is
redirected, it stays verified in the sense of `Redirect.Verifies`. -/
theorem redirect_verified (engine after : Engine) (body redirected : Body)
    (depths : List (Option Nat)) (required : Nat)
    (done : engine.redirect body = (.ok true, after, redirected))
    (analysed : body.stackDepths = .ok depths) (valid : body.validate = .ok ())
    (found : body.requiredMaxStack = .ok required) (covered : required ≤ body.maxStack) :
    ∃ redirect, engine.redirects.find? engine.settings.epochOrder body = some redirect ∧
      Verifies redirect.kind body depths
        (instrs redirect.kind (handlerSignature body) (redirect.bound body)) redirected := by
  unfold redirect at done
  split at done
  · cases done
  · rename_i redirect finds
    split at done
    · cases done
    · cases done
    · rename_i applied
      cases done
      obtain ⟨fits, run, made, placed⟩ := exists_place_of_apply applied
      have signatures : ∀ handler ∈ redirect.bound body,
          handler.signature = handlerSignature body := fun _ => signature_of_mem_bound
      have fitting : (handlerSignature body).totalSlots ≤ slotLimit :=
        (totalSlots_le finds).trans (by decide)
      obtain ⟨sameRun, madeSame, hasRoom, peakLe⟩ :=
        exists_run redirect.kind fitting signatures fits
      cases made.symm.trans madeSame
      obtain ⟨same, placedSame, redirects⟩ :=
        redirects_of_place (Run.instrs_of_ofList made) hasRoom peakLe
      cases placed.symm.trans placedSame
      refine ⟨redirect, finds, ?_⟩
      cases kindEq : redirect.kind with
      | replace =>
          rw [kindEq] at made redirects placed
          exact redirects.verifies_of_replace fits made placed depths
      | prepend =>
          rw [kindEq] at made redirects placed
          exact redirects.verifies_of_prepend fits fitting signatures made placed analysed valid
            found covered

theorem redirect_verified_echo :
    ∃ after redirected grown,
      (redirecting echo (by decide) .prepend echoHandlers).redirect echo =
        (.ok true, after, redirected) ∧
      redirected.maxStack = 3 ∧ redirected.validate = .ok () ∧
      redirected.stackDepths = .ok grown ∧ grown[10]? = some (some 0) ∧
      grown[11]? = some (some 2) := by
  let engine := redirecting echo (by decide) .prepend echoHandlers
  have succeeds : (engine.redirect echo).1 = .ok true := by decide +kernel
  have stackEq : (engine.redirect echo).2.2.maxStack = 3 := by decide +kernel
  have analysed : echo.stackDepths = .ok [some 0, some 2] := by decide +kernel
  obtain ⟨redirect, found, verifies⟩ :=
    redirect_verified engine _ echo _ [some 0, some 2] 2 (Prod.ext succeeds rfl)
      analysed (by decide +kernel) (by decide +kernel) (by decide)
  have finds : engine.redirects.find? engine.settings.epochOrder echo =
      some ⟨⟨⟨echo.ref, none, none, by decide⟩, by decide⟩, .prepend, echoHandlers⟩ := by
    decide +kernel
  cases found.symm.trans finds
  obtain ⟨grown, known⟩ := verifies.known_iff.mpr (.inr (by decide))
  have depths := verifies.keeps grown known
  have length : (engine.redirect echo).2.2.code.instrs.length = 12 := by decide +kernel
  rw [verifies.instrs_eq, List.length_append] at length
  rw [Nat.add_right_cancel length] at depths
  exact ⟨_, _, grown, Prod.ext succeeds rfl, stackEq, verifies.valid, known, depths 0 (by decide),
    depths 1 (by decide)⟩

/-- A method without code. -/
def hollow : Body := .ofNames "a/B" "m" ⟨[], .void⟩ ⟨9⟩

/-- Not every redirected body is verified, for control falls off the end of a body without code. -/
theorem not_always_verified :
    ¬ ∀ (engine after : Engine) (body redirected : Body) (depths : List (Option Nat))
      (required : Nat), engine.redirect body = (.ok true, after, redirected) →
        body.stackDepths = .ok depths → body.validate = .ok () →
        body.requiredMaxStack = .ok required → required ≤ body.maxStack →
        ∃ grown, redirected.stackDepths = .ok grown := by
  intro verified
  let engine := redirecting hollow (by decide) .prepend [⟨"h/H", "on", none⟩]
  have succeeds : (engine.redirect hollow).1 = .ok true := by decide +kernel
  obtain ⟨grown, analysed⟩ := verified engine _ hollow _ [] 0 (Prod.ext succeeds rfl)
    (by decide +kernel) (by decide +kernel) (by decide +kernel) (Nat.le_refl 0)
  have fallsOff : (engine.redirect hollow).2.2.stackDepths =
      .error (.fallsOffEnd (engine.redirect hollow).2.2.ref) := by
    decide +kernel
  cases analysed.symm.trans fallsOff

end Engine

end Weaver
