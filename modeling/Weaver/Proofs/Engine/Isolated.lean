import Weaver.Proofs.Engine.Countable
import Weaver.Proofs.Engine.Idle
import Weaver.Proofs.Engine.Relinked
import Weaver.Proofs.Engine.Rollback

/-!
# Bodies that are transformed together

Whether a body is rewritten, and to what, depends only on the events and injections of the engine and
on the body itself.  All that bodies share while they are transformed one after the other are the
routines, which differ in their numbers, names and proxy types, and the log.

Depths and insertion indices that are too large for their counts start anew.  A build that checks its
sums stops at the first of them instead, whichever body it is in, so that for such a build the results
are about bodies whose depths can be counted and sites whose index is below the limit.
-/

namespace Weaver

/-- An entry that reports a body whose new code is at fault. -/
def Diagnostic.Blames (body : Body) (entry : Diagnostic) : Prop :=
  ∃ fault : SynthesisFault, entry =
    { severity := .error
      category := .injection
      message := (Error.synthesis body.text fault).message
      method := body.text }

theorem Arena.Links.of_get_eq {arena later other : Arena} {routines peers : List RoutineId}
    {first second : MethodRef} (links : other.Links arena routines peers first second)
    (same : ∀ id ∈ peers, later.get id = arena.get id) :
    other.Links later routines peers first second := by
  obtain ⟨ids, member, firstEq, secondEq⟩ := links
  refine ⟨ids, member, firstEq, ?_⟩
  rw [same _ (List.of_mem_zip member).2]
  exact secondEq

namespace Engine

variable {engine other next lone : Engine} {body woven peerWoven : Body}
  {report peer : TransformReport}

/-- The same is set, defined and registered in two engines. -/
structure Akin (engine other : Engine) : Prop where
  settings_eq : other.settings = engine.settings
  events_eq : other.events = engine.events
  injections_eq : other.injections = engine.injections

namespace Akin

theorem refl (engine : Engine) : engine.Akin engine := ⟨rfl, rfl, rfl⟩

theorem symm (akin : engine.Akin other) : other.Akin engine :=
  ⟨akin.settings_eq.symm, akin.events_eq.symm, akin.injections_eq.symm⟩

theorem trans (first : engine.Akin other) (second : other.Akin next) : engine.Akin next :=
  ⟨second.settings_eq.trans first.settings_eq, second.events_eq.trans first.events_eq,
    second.injections_eq.trans first.injections_eq⟩

theorem siteMap_eq (akin : engine.Akin other) (body : Body) :
    other.siteMap body = engine.siteMap body := by
  unfold siteMap injectionsFor sitesOf
  rw [akin.settings_eq, akin.events_eq, akin.injections_eq]

theorem eventsOf_eq (akin : engine.Akin other) (sites : SiteMap) :
    other.eventsOf sites = engine.eventsOf sites := by
  unfold eventsOf
  rw [akin.events_eq]

end Akin

theorem Undisturbed.akin (undisturbed : engine.Undisturbed next) : engine.Akin next :=
  ⟨undisturbed.settings_eq, undisturbed.events_eq, undisturbed.injections_eq⟩

/-- A body that was rewritten twice, in the same way up to the numbers, names and proxy types of its
routines: their sites and events are the same, and the code differs in nothing but the calls of
them. -/
structure RewritesAs (lone proxies : Arena) (report peer : TransformReport)
    (woven peerWoven : Body) : Prop where
  report_eq : peer = { report with routines := peer.routines }
  corresponds : List.Forall₂
    (fun id other => (lone.get id).Corresponds (proxies.get other)) report.routines peer.routines
  relinked : woven.Relinked (lone.Links proxies report.routines peer.routines) peerWoven

/-- Routines that have been given out correspond in later arenas too. -/
theorem RewritesAs.of_retains {lone proxies later : Arena}
    (same : RewritesAs lone proxies report peer woven peerWoven)
    (known : ∀ id ∈ peer.routines, id.number ≤ proxies.routines.size)
    (retains : proxies.Retains later) : RewritesAs lone later report peer woven peerWoven := by
  have kept : ∀ id ∈ peer.routines, later.get id = proxies.get id :=
    fun id member => retains.get_old id (known id member)
  refine ⟨same.report_eq, ?_, same.relinked.mono fun _ _ links => links.of_get_eq kept⟩
  obtain ⟨lengthEq, each⟩ := List.forall₂_iff_zip.mp same.corresponds
  refine List.forall₂_iff_zip.mpr ⟨lengthEq, ?_⟩
  intro id other member
  rw [kept other (List.of_mem_zip member).2]
  exact each member

theorem transform_of_siteMap_eq_nil (nothing : engine.siteMap body = []) :
    engine.transform body =
      (.ok (.unmodified body), engine.note (engine.foundReports body), body) := by
  unfold transform
  rw [nothing]
  rfl

/-- A body that is rewritten in one of two engines that are akin is rewritten in the other. -/
theorem Akin.exists_transform (akin : engine.Akin other) (orderly : other.Orderly)
    (done : engine.transform body = (.ok report, lone, woven)) :
    ∃ peer next peerWoven, other.transform body = (.ok peer, next, peerWoven) ∧
      RewritesAs lone.proxies next.proxies report peer woven peerWoven := by
  have sitesEq := akin.siteMap_eq body
  cases transforms_of_transform done with
  | bare nothing =>
      exact ⟨_, _, _, transform_of_siteMap_eq_nil (sitesEq.trans nothing), rfl, .nil, .refl _ _⟩
  | woven something attached _ weft =>
      have start : (engine.loom body).Relinked (fun _ _ => False) (other.loom body) :=
        ⟨akin.events_eq, .refl _ _⟩
      obtain ⟨peerLoom, peerAttached, between⟩ := start.exists_attachAll attached
      obtain ⟨peers, peerEntries, peerLast, peerWeft, adjoins⟩ :=
        between.exists_weave (engine.proper_siteMap body).filled weft
      rw [← sitesEq] at peerWeft something
      rw [← akin.eventsOf_eq, ← sitesEq] at peerAttached
      rcases peerDone : other.transform body with ⟨result, next, peerWoven⟩
      -- the other engine attaches and weaves as well, so that only success is left to it
      cases transforms_of_transform peerDone with
      | bare nothing => exact absurd nothing something
      | refused _ refused => cases refused.symm.trans peerAttached
      | woven _ attachedAgain _ weftAgain =>
          cases peerAttached.symm.trans attachedAgain
          cases peerWeft.symm.trans weftAgain
          refine ⟨_, _, _, rfl, ?_, adjoins.corresponds, adjoins.relinked.body.mono ?_⟩
          · rw [sitesEq]
          · exact fun _ _ linked => linked.resolve_left id
      | failed _ attachedAgain _ weftAgain =>
          cases peerAttached.symm.trans attachedAgain
          cases peerWeft.symm.trans weftAgain
      | unreleased _ _ absent =>
          obtain ⟨id, member, missing⟩ := absent
          exact absurd missing (orderly.get?_ne_none member)

/-- What becomes of a body among others, whose routines are in the arena, compared with what becomes of
it alone. -/
inductive AsAlone (engine : Engine) (proxies : Arena) (body : Body) :
    TransformReport → Body → Prop
  /-- A body that fails alone is kept. -/
  | kept {error : Error} {lone : Engine} {woven : Body}
      (alone : engine.transform body = (.error error, lone, woven)) :
      AsAlone engine proxies body (.unmodified body) body
  /-- A body that succeeds alone is rewritten in the same way. -/
  | rewritten {report peer : TransformReport} {lone : Engine} {woven peerWoven : Body}
      (alone : engine.transform body = (.ok report, lone, woven))
      (same : RewritesAs lone.proxies proxies report peer woven peerWoven) :
      AsAlone engine proxies body peer peerWoven

theorem AsAlone.of_retains {proxies later : Arena}
    (asAlone : AsAlone engine proxies body peer peerWoven)
    (known : ∀ id ∈ peer.routines, id.number ≤ proxies.routines.size)
    (retains : proxies.Retains later) : AsAlone engine later body peer peerWoven := by
  cases asAlone with
  | kept alone => exact .kept alone
  | rewritten alone same => exact .rewritten alone (same.of_retains known retains)

/-- A body is reported as modified if it would be alone. -/
theorem AsAlone.modified_eq {proxies : Arena}
    (asAlone : AsAlone engine proxies body peer peerWoven) :
    peer.modified =
      ((engine.transform body).1.toOption.map TransformReport.modified).getD false := by
  cases asAlone with
  | kept alone =>
      rw [alone]
      rfl
  | rewritten alone same =>
      rw [alone, same.report_eq]
      rfl

/-- The entries that blame those of several bodies that fail when each of them is alone. -/
def Accuses (engine : Engine) (bodies : List Body) (entries : List Diagnostic) : Prop :=
  List.Forall₂ Diagnostic.Blames
    (bodies.filter fun body => !(engine.transform body).1.isOk) entries

theorem Accuses.append {bodies others : List Body} {entries more : List Diagnostic}
    (first : engine.Accuses bodies entries) (second : engine.Accuses others more) :
    engine.Accuses (bodies ++ others) (entries ++ more) := by
  unfold Accuses
  rw [List.filter_append]
  exact List.rel_append first second

/-- A body that is transformed in an engine that is akin becomes what it becomes alone. -/
theorem Akin.exists_transformOrKeep (akin : engine.Akin other) (idle : engine.events.Idle)
    (orderly : engine.Orderly) (coherent : other.Coherent) (body : Body) :
    ∃ (report : TransformReport) (next : Engine) (woven : Body) (entries : List Diagnostic),
      other.transformOrKeep body = (.ok report, next, woven) ∧
      next.Coherent ∧ engine.Akin next ∧ other.proxies.Retains next.proxies ∧
      (∀ id ∈ report.routines, id.number ≤ next.proxies.routines.size) ∧
      AsAlone engine next.proxies body report woven ∧
      (Body.Countable body.code.instrs → Body.Countable woven.code.instrs) ∧
      next.log.ofSeverity .error = other.log.ofSeverity .error ++ entries ∧
      Accuses engine [body] entries := by
  rcases here : other.transform body with ⟨result, next, woven⟩
  have akinNext := akin.trans (coherent.undisturbed here).akin
  have grown := coherent.grown here
  have retains : other.proxies.Retains next.proxies := ⟨grown.size_le, grown.get_old⟩
  have settled := coherent.orderly.transform_of_idle (akin.events_eq ▸ idle) here
  rcases alone : engine.transform body with ⟨_ | report, lone, loneWoven⟩
  · -- a body that fails alone fails here, for one that succeeded here would succeed alone
    obtain ⟨⟨report, rfl⟩, _⟩ | ⟨fault, rfl, blamed⟩ := settled
    · obtain ⟨_, _, _, succeeds, _⟩ := akin.symm.exists_transform orderly here
      cases alone.symm.trans succeeds
    · cases eq_of_transform_error here
      refine ⟨.unmodified body, next, body, failureReports body (.synthesis body.text fault), ?_,
        coherent.transform here, akinNext, retains, List.forall_mem_nil _, .kept alone, id, blamed,
        ?_⟩
      · simp only [transformOrKeep, here]
      · simp only [Accuses, alone, Except.isOk, List.filter_cons]
        exact .cons ⟨fault, rfl⟩ .nil
  · obtain ⟨peer, _, _, succeeds, same⟩ := akin.exists_transform coherent.orderly alone
    cases here.symm.trans succeeds
    obtain ⟨_, unblamed⟩ | ⟨_, ⟨⟩, _⟩ := settled
    refine ⟨peer, next, woven, [], ?_, coherent.transform here, akinNext, retains,
      fun id member => (grown.knows member).2, .rewritten alone same,
      coherent.orderly.countable_of_transform here, unblamed.trans (List.append_nil _).symm, ?_⟩
    · simp only [transformOrKeep, here]
    · simp only [Accuses, alone, Except.isOk, List.filter_cons]
      exact .nil

/-- Bodies that are transformed one after the other become what each of them becomes alone. -/
theorem Akin.exists_transformEach (akin : engine.Akin other) (idle : engine.events.Idle)
    (orderly : engine.Orderly) (coherent : other.Coherent) (bodies : List Body) :
    ∃ (outcomes : List (TransformReport × Body)) (next : Engine) (entries : List Diagnostic),
      other.transformEach bodies =
        (.ok (outcomes.map Prod.fst), next, outcomes.map Prod.snd) ∧
      engine.Akin next ∧ other.proxies.Retains next.proxies ∧
      List.Forall₂ (fun body outcome => AsAlone engine next.proxies body outcome.1 outcome.2)
        bodies outcomes ∧
      List.Forall₂ (fun body outcome =>
        Body.Countable body.code.instrs → Body.Countable outcome.2.code.instrs) bodies outcomes ∧
      next.log.ofSeverity .error = other.log.ofSeverity .error ++ entries ∧
      Accuses engine bodies entries := by
  induction bodies generalizing other with
  | nil => exact ⟨[], other, [], rfl, akin, .refl _, .nil, .nil, (List.append_nil _).symm, .nil⟩
  | cons body rest ih =>
      obtain ⟨report, middle, woven, blame, here, coherentMiddle, akinMiddle, kept, known, first,
        counted, reported, accuses⟩ := akin.exists_transformOrKeep idle orderly coherent body
      obtain ⟨outcomes, next, blames, behind, akinNext, retains, others, countedAll, reportedAll,
        accusesAll⟩ := ih akinMiddle coherentMiddle
      refine ⟨(report, woven) :: outcomes, next, blame ++ blames, ?_, akinNext, kept.trans retains,
        .cons (first.of_retains known retains) others, .cons counted countedAll, ?_, ?_⟩
      · simp only [transformEach, here, behind, List.map_cons]
      · rw [reportedAll, reported, List.append_assoc]
      · exact accuses.append accusesAll

/-- One broken body never affects the others.  While no event is attached, transforming several bodies
succeeds, with one outcome for each of them in order.  Each body is rewritten as it would be alone, up
to the names and the proxy types of the routines; one that would fail alone, for whatever reason, is
kept, is reported as unmodified and is blamed in one entry, and no other error is reported.  The events
are as they were, so that none is attached afterwards.

A depth or an index that is too large for its count starts anew in all this.  No injection brings such
a depth about: a body whose depths can be counted can be counted afterwards too. -/
theorem transformAll_isolated (reachable : engine.Reachable) (idle : engine.events.Idle)
    (bodies : List Body) :
    ∃ (outcomes : List (TransformReport × Body)) (next : Engine) (entries : List Diagnostic),
      engine.transformAll bodies =
        (.ok (outcomes.map Prod.fst), next, outcomes.map Prod.snd) ∧
      List.Forall₂ (fun body outcome => AsAlone engine next.proxies body outcome.1 outcome.2)
        bodies outcomes ∧
      List.Forall₂ (fun body outcome =>
        Body.Countable body.code.instrs → Body.Countable outcome.2.code.instrs) bodies outcomes ∧
      next.log.ofSeverity .error = engine.log.ofSeverity .error ++ entries ∧
      Accuses engine bodies entries ∧
      next.events = engine.events := by
  have coherent := reachable.coherent
  obtain ⟨outcomes, last, entries, done, akin, _, asAlone, counted, reported, accuses⟩ :=
    Akin.exists_transformEach (.refl engine) idle coherent.orderly coherent bodies
  refine ⟨outcomes, (last.reportUnresolved (outcomes.map Prod.snd)).2, entries, ?_, ?_, counted, ?_,
    accuses, akin.events_eq⟩
  · unfold transformAll
    rw [done]
  · exact asAlone
  · refine (ofSeverity_note _ _ _).trans ?_
    rw [reported, filter_error_eq_nil, List.append_nil]
    intro entry member
    obtain ⟨injection, _, rfl⟩ := List.mem_map.mp member
    nofun

/-- The countdown with its first label once more at the end. -/
def relabelledCountdown : Body :=
  { Body.countdown with code := Body.countdown.code.push (.label ⟨0⟩) }

theorem not_transform_relabelledCountdown (report : TransformReport) :
    ((hostOf twoEvents twoInjections).transform relabelledCountdown).1 ≠ .ok report := by
  intro succeeds
  rcases transform_cases (Prod.ext succeeds rfl) with
    ⟨nothing, _⟩ | ⟨_, attached, last, entries, attachedAll, injected, _⟩
  · have found : ((hostOf twoEvents twoInjections).siteMap relabelledCountdown).isEmpty = false := by
      cbv
    rw [nothing] at found
    cases found
  · have refused : ((((hostOf twoEvents twoInjections).loom relabelledCountdown).attachAll []
        ((hostOf twoEvents twoInjections).eventsOf
          ((hostOf twoEvents twoInjections).siteMap relabelledCountdown))).2.injectSites
        ((hostOf twoEvents twoInjections).siteMap relabelledCountdown).reverse).1.isOk = false := by
      cbv
    rw [attachedAll] at refused
    dsimp only at refused
    rw [injected] at refused
    cases refused

/-- The second body fails, and the others are rewritten all the same. -/
theorem transformAll_isolated_relabelled :
    (hostOf twoEvents twoInjections).Reachable ∧
      (hostOf twoEvents twoInjections).events.Idle ∧
      ∃ (outcomes : List (TransformReport × Body)) (next : Engine),
        (hostOf twoEvents twoInjections).transformAll
            [.countdown, relabelledCountdown, .countdown] =
          (.ok (outcomes.map Prod.fst), next, outcomes.map Prod.snd) ∧
        outcomes.map (fun outcome => outcome.1.modified) = [true, false, true] ∧
        (next.log.ofSeverity .error).length = 1 ∧
        next.events = (hostOf twoEvents twoInjections).events := by
  have reachable := hosted_twoInjections.reachable
  have idle : (hostOf twoEvents twoInjections).events.Idle := by
    unfold EventStore.Idle
    decide
  have succeeds := transform_twoInjections.1
  obtain ⟨error, fails⟩ : ∃ error,
      ((hostOf twoEvents twoInjections).transform relabelledCountdown).1 = .error error := by
    cases outcome : ((hostOf twoEvents twoInjections).transform relabelledCountdown).1 with
    | error error => exact ⟨error, rfl⟩
    | ok report => exact absurd outcome (not_transform_relabelledCountdown report)
  obtain ⟨outcomes, next, entries, done, asAlone, _, reported, accuses, eventsEq⟩ :=
    transformAll_isolated reachable idle [.countdown, relabelledCountdown, .countdown]
  refine ⟨reachable, idle, outcomes, next, done, ?_, ?_, eventsEq⟩
  · obtain _ | ⟨first, _ | ⟨second, _ | ⟨third, _ | _⟩⟩⟩ := asAlone
    simp only [List.map_cons, List.map_nil, first.modified_eq, second.modified_eq,
      third.modified_eq, succeeds, fails]
    rfl
  · have single := accuses.length_eq
    simp only [List.filter_cons, List.filter_nil, succeeds, fails] at single
    rw [reported, List.length_append, ← single]
    rfl

end Engine

end Weaver
