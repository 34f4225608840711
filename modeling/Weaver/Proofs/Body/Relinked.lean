import Weaver.Proofs.Body.Depths

/-!
# Code that calls other methods

Two bodies are relinked when they differ only in methods that they call without a receiver, each of
them with the same signature as the one in its place.  Control takes the same way through both, so the
depth analysis, the required stack and the required locals are the same.
-/

namespace Weaver

variable {link : MethodRef → MethodRef → Prop}

/-- Two instructions are the same, or they are static calls of linked methods of one signature. -/
inductive Instr.Relinked (link : MethodRef → MethodRef → Prop) : Instr → Instr → Prop
  | same (instr : Instr) : Relinked link instr instr
  | call {first second : MethodRef} (linked : link first second)
      (akin : second.signature = first.signature) :
      Relinked link (.call .static first) (.call .static second)

namespace Instr.Relinked

variable {instr other : Instr}

theorem mono {wider : MethodRef → MethodRef → Prop} (relinked : Relinked link instr other)
    (among : ∀ first second, link first second → wider first second) :
    Relinked wider instr other := by
  cases relinked with
  | same => exact .same _
  | call linked akin => exact .call (among _ _ linked) akin

theorem symm (relinked : Relinked link instr other) :
    Relinked (fun first second => link second first) other instr := by
  cases relinked with
  | same => exact .same _
  | call linked akin => exact .call linked akin.symm

theorem effect_eq (relinked : Relinked link instr other) : other.effect = instr.effect := by
  cases relinked with
  | same => rfl
  | call _ akin => simp only [effect, akin]

theorem fallsThrough_eq (relinked : Relinked link instr other) :
    other.fallsThrough = instr.fallsThrough := by
  cases relinked <;> rfl

theorem target?_eq (relinked : Relinked link instr other) : other.target? = instr.target? := by
  cases relinked <;> rfl

theorem definition?_eq (relinked : Relinked link instr other) :
    other.definition? = instr.definition? := by
  cases relinked <;> rfl

theorem labelBound_eq (relinked : Relinked link instr other) :
    other.labelBound = instr.labelBound := by
  rw [labelBound, relinked.definition?_eq, relinked.target?_eq, labelBound]

theorem localBound_eq (relinked : Relinked link instr other) :
    other.localBound = instr.localBound := by
  cases relinked <;> rfl

theorem eq_label {label : Label} (relinked : Relinked link (.label label) other) :
    other = .label label := by
  cases relinked
  rfl

end Instr.Relinked

/-- Two sequences are relinked if their instructions are, one by one. -/
abbrev Code.Relinked (link : MethodRef → MethodRef → Prop) (instrs others : List Instr) : Prop :=
  List.Forall₂ (Instr.Relinked link) instrs others

namespace Code.Relinked

variable {instrs others : List Instr}

theorem refl (link : MethodRef → MethodRef → Prop) (instrs : List Instr) :
    Relinked link instrs instrs :=
  List.forall₂_same.mpr fun instr _ => .same instr

theorem mono {wider : MethodRef → MethodRef → Prop} (relinked : Relinked link instrs others)
    (among : ∀ first second, link first second → wider first second) :
    Relinked wider instrs others :=
  relinked.imp fun _ _ each => each.mono among

theorem symm (relinked : Relinked link instrs others) :
    Relinked (fun first second => link second first) others instrs :=
  (relinked.imp fun _ _ each => each.symm).flip

/-- What agrees for relinked instructions agrees all along relinked code. -/
theorem map_eq {α : Type} {measure : Instr → α} (relinked : Relinked link instrs others)
    (same : ∀ instr other, Instr.Relinked link instr other → measure other = measure instr) :
    others.map measure = instrs.map measure := by
  induction relinked with
  | nil => rfl
  | cons first _ ih => rw [List.map_cons, List.map_cons, same _ _ first, ih]

theorem exists_getElem? {index : Nat} {instr : Instr} (relinked : Relinked link instrs others)
    (here : instrs[index]? = some instr) :
    ∃ other, others[index]? = some other ∧ Instr.Relinked link instr other := by
  obtain ⟨inside, rfl⟩ := List.getElem?_eq_some_iff.mp here
  have insideOther := relinked.length_eq ▸ inside
  exact ⟨_, List.getElem?_eq_getElem insideOther, relinked.get inside insideOther⟩

theorem definedAt {label : Label} {position : Nat} (relinked : Relinked link instrs others)
    (defined : DefinedAt instrs label position) : DefinedAt others label position := by
  obtain ⟨other, here, each⟩ := relinked.exists_getElem? defined
  rw [DefinedAt, here, each.eq_label]

theorem uniqueLabels (relinked : Relinked link instrs others) (unique : UniqueLabels instrs) :
    UniqueLabels others :=
  fun _ _ _ first second => unique (relinked.symm.definedAt first) (relinked.symm.definedAt second)

theorem boundFrom_eq (relinked : Relinked link instrs others) (bound : Nat) :
    boundFrom bound others = boundFrom bound instrs := by
  unfold boundFrom
  rw [← List.foldl_map (f := Instr.labelBound) (g := max),
    relinked.map_eq fun _ _ each => each.labelBound_eq, List.foldl_map]

end Code.Relinked

namespace Body

variable {instrs others : List Instr}

theorem Follows.relink {before after : Nat × Nat} (step : Follows instrs before after)
    (relinked : Code.Relinked link instrs others) : Follows others before after := by
  cases step with
  | next here enough falls =>
      obtain ⟨other, there, each⟩ := relinked.exists_getElem? here
      rw [← each.effect_eq] at enough ⊢
      exact .next there enough (each.fallsThrough_eq.trans falls)
  | branch here enough target defined =>
      obtain ⟨other, there, each⟩ := relinked.exists_getElem? here
      rw [← each.effect_eq] at enough ⊢
      exact .branch there enough (each.target?_eq.trans target) (relinked.definedAt defined)

theorem Reaches.relink {index depth : Nat} (reached : Reaches instrs index depth)
    (relinked : Code.Relinked link instrs others) : Reaches others index depth :=
  Relation.ReflTransGen.mono (fun _ _ step => Follows.relink step relinked) _ _ reached

theorem reaches_relinked (relinked : Code.Relinked link instrs others) {index depth : Nat} :
    Reaches others index depth ↔ Reaches instrs index depth :=
  ⟨fun reached => reached.relink relinked.symm, fun reached => reached.relink relinked⟩

theorem Balanced.relink (balanced : Balanced instrs) (relinked : Code.Relinked link instrs others) :
    Balanced others where
  labels := relinked.uniqueLabels balanced.labels
  inside := by
    intro depth reached
    rw [← relinked.length_eq] at reached
    exact balanced.inside depth ((reaches_relinked relinked).mp reached)
  enough := by
    intro index depth instr reached here
    obtain ⟨other, there, each⟩ := relinked.symm.exists_getElem? here
    rw [← each.effect_eq]
    exact balanced.enough ((reaches_relinked relinked).mp reached) there
  target := by
    intro index depth instr label reached here target
    obtain ⟨other, there, each⟩ := relinked.symm.exists_getElem? here
    have member := balanced.target ((reaches_relinked relinked).mp reached) there
      (each.target?_eq.trans target)
    obtain ⟨position, defined⟩ := Code.exists_definedAt member
    exact (relinked.definedAt defined).mem
  agree := fun first second =>
    balanced.agree ((reaches_relinked relinked).mp first) ((reaches_relinked relinked).mp second)

theorem Records.relink {depths : List (Option Nat)} (records : Records instrs depths)
    (relinked : Code.Relinked link instrs others) : Records others depths where
  length_eq := records.length_eq.trans relinked.length_eq
  known_iff := fun index depth =>
    (records.known_iff index depth).trans (reaches_relinked relinked).symm
  unknown_iff := by
    intro index inside
    rw [← relinked.length_eq] at inside
    simp only [reaches_relinked relinked]
    exact records.unknown_iff index inside

theorem peakAt_relinked {instr other : Instr} (relinked : Instr.Relinked link instr other) :
    peakAt other = peakAt instr := by
  funext depth
  rw [peakAt, peakAt, relinked.effect_eq]

theorem map_demand_relinked (relinked : Code.Relinked link instrs others)
    (depths : List (Option Nat)) :
    (others.zip depths).map demand = (instrs.zip depths).map demand := by
  induction relinked generalizing depths with
  | nil => rfl
  | cons first _ ih =>
      cases depths with
      | nil => rfl
      | cons held rest =>
          simp only [List.zip_cons_cons, List.map_cons, ih, demand, peakAt_relinked first]

/-- Two bodies are relinked if they differ only in the methods that their code calls.  Their allocators
of labels stand at the same place. -/
structure Relinked (link : MethodRef → MethodRef → Prop) (body other : Body) : Prop where
  eq_with : other = { body with code := other.code }
  code : Code.Relinked link body.code.instrs other.code.instrs
  nextLabel_eq : other.code.nextLabel = body.code.nextLabel

namespace Relinked

variable {body other : Body}

theorem refl (link : MethodRef → MethodRef → Prop) (body : Body) : Relinked link body body :=
  ⟨rfl, .refl link _, rfl⟩

theorem mono {wider : MethodRef → MethodRef → Prop} (relinked : Relinked link body other)
    (among : ∀ first second, link first second → wider first second) : Relinked wider body other :=
  { relinked with code := relinked.code.mono among }

theorem ref_eq (relinked : Relinked link body other) : other.ref = body.ref := by
  rw [relinked.eq_with]
  rfl

theorem text_eq (relinked : Relinked link body other) : other.text = body.text :=
  congrArg MethodRef.text relinked.ref_eq

theorem maxStack_eq (relinked : Relinked link body other) : other.maxStack = body.maxStack := by
  rw [relinked.eq_with]

theorem stackDepths_eq {depths : List (Option Nat)} (relinked : Relinked link body other)
    (analysed : body.stackDepths = .ok depths) : other.stackDepths = .ok depths := by
  by_cases nonempty : body.code.instrs = []
  · have empty : other.code.instrs = [] := by
      have lengthEq := relinked.code.length_eq
      rw [nonempty] at lengthEq
      exact List.length_eq_zero_iff.mp lengthEq.symm
    have nothing (bare : Body) (none : bare.code.instrs = []) : bare.stackDepths = .ok [] := by
      unfold stackDepths Code.labelPositions
      rw [none]
      rfl
    rw [nothing other empty, ← analysed, nothing body nonempty]
  · have filled : other.code.instrs ≠ [] := by
      rw [← List.length_pos_iff, ← relinked.code.length_eq]
      exact List.length_pos_iff.mpr nonempty
    have balanced := (stackDepths_isOk_iff nonempty).mp ⟨depths, analysed⟩
    obtain ⟨found, analysedOther⟩ :=
      (stackDepths_isOk_iff filled).mpr (balanced.relink relinked.code)
    have records := (records_of_stackDepths nonempty analysed).relink relinked.code
    rw [analysedOther, (records_of_stackDepths filled analysedOther).unique records]

theorem requiredMaxStack_eq {required : Nat} (relinked : Relinked link body other)
    (found : body.requiredMaxStack = .ok required) : other.requiredMaxStack = .ok required := by
  cases analysed : body.stackDepths with
  | error fault =>
      rw [requiredMaxStack, analysed] at found
      cases found
  | ok depths =>
      rw [Body.requiredMaxStack_eq analysed] at found
      rw [Body.requiredMaxStack_eq (relinked.stackDepths_eq analysed), ← found,
        ← List.foldl_map (f := demand) (g := max), ← List.foldl_map (f := demand) (g := max),
        map_demand_relinked relinked.code]

theorem requiredMaxLocals_eq (relinked : Relinked link body other) :
    other.requiredMaxLocals = body.requiredMaxLocals := by
  have arguments : other.argumentSlots = body.argumentSlots := by
    rw [relinked.eq_with]
    rfl
  unfold requiredMaxLocals
  rw [arguments, ← List.foldl_map (f := Instr.localBound) (g := max),
    relinked.code.map_eq fun _ _ each => each.localBound_eq, List.foldl_map]

end Relinked

end Body

end Weaver
