import Weaver.Proofs.Engine.Reachable

/-!
# Records of what was rewritten

Between two transformations that succeed others may fail.  The bodies that were rewritten are recorded
along the run of a host, and at any time the records tell which routines live.
-/

namespace Weaver

/-- A body that was transformed with success. -/
structure Rewrite where
  source : Body
  report : TransformReport
  woven : Body

namespace Engine

/-- The bodies that are rewritten when several are transformed, up to the first that fails by an error
which is not its own fault alone. -/
def rewrites (engine : Engine) : List Body → List Rewrite
  | [] => []
  | body :: rest =>
      match engine.transform body with
      | (.ok report, next, woven) => ⟨body, report, woven⟩ :: next.rewrites rest
      | (.error (.synthesis _ _), next, _) => next.rewrites rest
      | (.error _, _, _) => []

/-- What a host comes to that has bodies transformed, one or several at a time, with success or without,
and prepares what it likes in between; with the bodies that were rewritten. -/
inductive Course (settings : Settings) : Engine → List Rewrite → Prop
  | fresh : Course settings (.fresh settings) []
  | prepare {engine next : Engine} {records : List Rewrite} (course : Course settings engine records)
      (prepares : engine.Prepares next) : Course settings next records
  | transform {engine next : Engine} {records : List Rewrite} {body woven : Body}
      {result : Except Error TransformReport} (course : Course settings engine records)
      (done : engine.transform body = (result, next, woven)) :
      Course settings next
        (records ++ (result.toOption.map fun report => ⟨body, report, woven⟩).toList)
  | transformAll {engine next : Engine} {records : List Rewrite} {bodies after : List Body}
      {result : Except Error (List TransformReport)} (course : Course settings engine records)
      (done : engine.transformAll bodies = (result, next, after)) :
      Course settings next (records ++ engine.rewrites bodies)

variable {settings : Settings} {engine next : Engine} {records : List Rewrite} {body woven : Body}

/-- The first of several bodies is rewritten, or is kept with or without those behind it. -/
theorem transformEach_cons (engine : Engine) (body : Body) (rest : List Body) :
    (∃ report next woven, engine.transform body = (.ok report, next, woven) ∧
      (engine.transformEach (body :: rest)).2 =
        ((next.transformEach rest).2.1, woven :: (next.transformEach rest).2.2) ∧
      engine.rewrites (body :: rest) = ⟨body, report, woven⟩ :: next.rewrites rest) ∨
    ∃ error next, engine.transform body = (.error error, next, body) ∧
      ((engine.transformEach (body :: rest)).2 =
          ((next.transformEach rest).2.1, body :: (next.transformEach rest).2.2) ∧
        engine.rewrites (body :: rest) = next.rewrites rest ∨
      (engine.transformEach (body :: rest)).2 = (next, body :: rest) ∧
        engine.rewrites (body :: rest) = []) := by
  rcases done : engine.transform body with ⟨_ | report, next, woven⟩
  · rename_i error
    obtain rfl := eq_of_transform_error done
    refine .inr ⟨error, next, rfl, ?_⟩
    cases error with
    | synthesis method fault =>
        left
        rcases behind : next.transformEach rest with ⟨_ | reports, last, bodies⟩ <;>
          simp only [transformEach, transformOrKeep, rewrites, done, behind, and_self]
    | _ =>
        right
        simp only [transformEach, transformOrKeep, rewrites, done, and_self]
  · refine .inl ⟨report, next, woven, rfl, ?_⟩
    rcases behind : next.transformEach rest with ⟨_ | reports, last, bodies⟩ <;>
      simp only [transformEach, transformOrKeep, rewrites, done, behind, and_self]

/-- The rewritten body has the runs, whose routines are in the engine. -/
structure Holds (engine : Engine) (record : Rewrite) (inlays : List Inlay) : Prop where
  atOnce : AtOnce record.source inlays record.woven
  routines_eq : record.report.routines = inlays.map fun inlay => inlay.routine.id
  routine_eq : ∀ inlay ∈ inlays, engine.proxies.get inlay.routine.id = inlay.routine
  site_eq : ∀ inlay ∈ inlays, inlay.routine.site = inlay.index
  target_eq : ∀ inlay ∈ inlays, inlay.routine.target = record.source.text
  narrow : ∀ inlay ∈ inlays, inlay.routine.signature.totalSlots ≤ slotLimit

/-- The records account for the routines that live. -/
structure Accounts (settings : Settings) (engine : Engine) (records : List Rewrite) : Prop where
  coherent : engine.Coherent
  className_eq : engine.proxies.className = settings.proxyClass
  live_eq : engine.proxies.live = records.flatMap fun record => record.report.routines
  holds : ∀ record ∈ records, ∃ inlays, engine.Holds record inlays

theorem accounts_fresh (settings : Settings) : Accounts settings (.fresh settings) [] where
  coherent := coherent_fresh settings
  className_eq := rfl
  live_eq := rfl
  holds := List.forall_mem_nil _

theorem Accounts.prepare (accounts : Accounts settings engine records)
    (prepares : engine.Prepares next) : Accounts settings next records where
  coherent := prepares.coherent accounts.coherent
  className_eq := by
    rw [prepares.proxies_eq]
    exact accounts.className_eq
  live_eq := by
    rw [prepares.proxies_eq]
    exact accounts.live_eq
  holds := by
    intro record member
    obtain ⟨inlays, held⟩ := accounts.holds record member
    refine ⟨inlays, { held with routine_eq := ?_ }⟩
    rw [prepares.proxies_eq]
    exact held.routine_eq

/-- What holds of a record holds in every engine that has its routines. -/
theorem Holds.of_get_eq {record : Rewrite} {inlays : List Inlay} (held : engine.Holds record inlays)
    (same : ∀ inlay ∈ inlays,
      next.proxies.get inlay.routine.id = engine.proxies.get inlay.routine.id) :
    next.Holds record inlays :=
  { held with routine_eq := fun inlay member => (same inlay member).trans (held.routine_eq inlay member) }

theorem Accounts.lives (accounts : Accounts settings engine records) {record : Rewrite}
    (member : record ∈ records) {inlays : List Inlay} (held : engine.Holds record inlays)
    {inlay : Inlay} (inlayIn : inlay ∈ inlays) : inlay.routine.id ∈ engine.proxies.live := by
  rw [accounts.live_eq]
  refine List.mem_flatMap.mpr ⟨record, member, ?_⟩
  rw [held.routines_eq]
  exact List.mem_map_of_mem inlayIn

/-- A routine that lives is that of a rewritten body. -/
theorem Accounts.exists_inlay (accounts : Accounts settings engine records) {id : RoutineId}
    (lives : id ∈ engine.proxies.live) :
    ∃ record ∈ records, ∃ inlays, engine.Holds record inlays ∧
      ∃ inlay ∈ inlays, inlay.routine.id = id := by
  rw [accounts.live_eq] at lives
  obtain ⟨record, member, reported⟩ := List.mem_flatMap.mp lives
  obtain ⟨inlays, held⟩ := accounts.holds record member
  rw [held.routines_eq] at reported
  exact ⟨record, member, inlays, held, List.mem_map.mp reported⟩

/-- A transformation accounts for the routines that it adds. -/
theorem Accounts.transform (accounts : Accounts settings engine records)
    {result : Except Error TransformReport}
    (done : engine.transform body = (result, next, woven)) :
    Accounts settings next
      (records ++ (result.toOption.map fun report => ⟨body, report, woven⟩).toList) := by
  have coherent := accounts.coherent
  have grown := coherent.grown done
  have older : ∀ record ∈ records, ∃ inlays, next.Holds record inlays := by
    intro record member
    obtain ⟨inlays, held⟩ := accounts.holds record member
    refine ⟨inlays, held.of_get_eq fun inlay inlayIn => grown.get_old _ ?_⟩
    exact (coherent.sound.known _ (accounts.lives member held inlayIn)).2
  refine ⟨coherent.transform done, grown.className_eq.trans accounts.className_eq, ?_, ?_⟩
  · rw [grown.live_eq, accounts.live_eq, List.flatMap_append]
    cases result with
    | error error => rfl
    | ok report => exact congrArg _ (List.append_nil _).symm
  · intro record member
    rcases List.mem_append.mp member with known | new
    · exact older record known
    · cases result with
      | error error => cases new
      | ok report =>
          obtain rfl := List.mem_singleton.mp new
          obtain ⟨inlays, woven⟩ := coherent.orderly.exists_of_transform done
          refine ⟨inlays, woven.inlaid.atOnce, woven.routines_eq,
            fun inlay inlayIn => (woven.merges inlay inlayIn).1, ?_, ?_, woven.totalSlots_le⟩
          all_goals
            intro inlay inlayIn
            obtain ⟨_, events, _, merges⟩ := woven.merges inlay inlayIn
          · exact merges.site_eq
          · exact merges.target_eq

theorem Accounts.transformEach (accounts : Accounts settings engine records) (bodies : List Body) :
    Accounts settings (engine.transformEach bodies).2.1 (records ++ engine.rewrites bodies) := by
  induction bodies generalizing engine records with
  | nil =>
      rw [rewrites, List.append_nil]
      exact accounts
  | cons body rest ih =>
      rcases engine.transformEach_cons body rest with
        ⟨report, next, woven, done, outcome, recorded⟩ |
          ⟨error, next, done, ⟨outcome, recorded⟩ | ⟨outcome, recorded⟩⟩
      · have later := ih (accounts.transform done)
        rw [outcome, recorded]
        rwa [List.append_assoc] at later
      · have later := ih (accounts.transform done)
        rw [outcome, recorded]
        rwa [List.append_assoc] at later
      · have first := accounts.transform done
        rw [outcome, recorded]
        exact first

theorem Accounts.transformAll (accounts : Accounts settings engine records) {bodies after : List Body}
    {result : Except Error (List TransformReport)}
    (done : engine.transformAll bodies = (result, next, after)) :
    Accounts settings next (records ++ engine.rewrites bodies) := by
  have each := accounts.transformEach bodies
  unfold Engine.transformAll at done
  rcases outcome : engine.transformEach bodies with ⟨_ | reports, last, rest⟩
  · rw [outcome] at done each
    cases done
    exact each
  · rw [outcome] at done each
    cases done
    exact each.prepare (.note _)

/-- At any time the records account for the routines that live. -/
theorem Course.accounts (course : Course settings engine records) : Accounts settings engine records := by
  induction course with
  | fresh => exact accounts_fresh settings
  | prepare _ prepares ih => exact ih.prepare prepares
  | transform _ done ih => exact ih.transform done
  | transformAll _ done ih => exact ih.transformAll done

end Engine

end Weaver
