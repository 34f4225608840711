import Weaver.Engine.Loom

/-!
# Transforming bodies

`Engine.transform` finds all sites of a body, merges the events that share one, and injects from the
last site to the first, so that the indices of the sites that are left stay right.  The events are
attached while that lasts.  The body is a copy, which is kept only if all sites succeed; otherwise the
routines that were allocated by then are discarded.
-/

namespace Weaver

/-- The events to inject at each insertion index, by increasing index. -/
abbrev SiteMap := List (Nat × List EventId)

/-- Add an event to those of an index, once. -/
def SiteMap.add (index : Nat) (event : EventId) : SiteMap → SiteMap
  | [] => [(index, [event])]
  | entry :: rest =>
      if index < entry.1 then (index, [event]) :: entry :: rest
      else if index = entry.1 then
        (if event ∈ entry.2 then entry else (entry.1, entry.2 ++ [event])) :: rest
      else entry :: SiteMap.add index event rest

/-- What became of a body. -/
structure TransformReport where
  /-- The text of the method. -/
  method : String
  modified : Bool
  /-- The number of sites. -/
  sites : Nat
  /-- The routines of the sites, from the last site to the first. -/
  routines : List RoutineId
  deriving DecidableEq

/-- The report of a body in which nothing was done. -/
def TransformReport.unmodified (body : Body) : TransformReport := ⟨body.text, false, 0, []⟩

namespace Engine

/-- The injections whose target names a body. -/
def injectionsFor (engine : Engine) (body : Body) : List Injection :=
  engine.injections.filter fun injection => injection.target.names engine.settings.epochOrder body

/-- The sites that an injection finds in a body. -/
def sitesOf (engine : Engine) (body : Body) (injection : Injection) : List Site :=
  injection.locator.find body.signature body.code (engine.events.get injection.event)

/-- All sites of a body with their events. -/
def siteMap (engine : Engine) (body : Body) : SiteMap :=
  (engine.injectionsFor body).foldl
    (fun sites injection =>
      (engine.sitesOf body injection).foldl
        (fun sites site => sites.add site.insertionIndex injection.event) sites)
    []

/-- The entries that report what each locator found. -/
def foundReports (engine : Engine) (body : Body) : List Diagnostic :=
  if engine.settings.verbose then
    (engine.injectionsFor body).map fun injection =>
      { severity := .info
        category := .locator
        message :=
          s!"{injection.locator.name} found {(engine.sitesOf body injection).length} point(s)"
        method := body.text
        event := (engine.events.get injection.event).name }
  else []

/-- The distinct events of a map of sites, in order. -/
def eventsOf (engine : Engine) (sites : SiteMap) : List EventId :=
  engine.events.sort (sites.flatMap Prod.snd).eraseDups

end Engine

namespace Loom

/-- The entries that report the injection of the events of a site. -/
def siteReports (loom : Loom) (index : Nat) (events : List EventId) (routine : RoutineId) :
    List Diagnostic :=
  events.map fun id =>
    let name := (loom.events.get id).name
    { severity := .info
      category := .injection
      message :=
        s!"Event {name} injected at site {index} via {(loom.proxies.get routine).text}"
      method := loom.body.text
      event := name
      site := index }

/-- Inject the events of a site: the first one brings the routine, and the others join it. -/
def injectSite (loom : Loom) (index : Nat) (events : List EventId) :
    Except Error Unit × List RoutineId × List Diagnostic × Loom :=
  let sorted := loom.events.sort events
  let cancellable := sorted.any fun id => (loom.events.get id).cancellable
  match sorted with
  | [] => (.ok (), [], [], loom)
  | lead :: rest =>
      match loom.inject lead index cancellable with
      | (.error error, loom) => (.error error, [], [], loom)
      | (.ok routine, loom) =>
          match loom.joinAll routine rest with
          | (.error error, loom) => (.error error, [routine], [], loom)
          | (.ok (), loom) => (.ok (), [routine], loom.siteReports index sorted routine, loom)

/-- Inject at several sites, in the order given, up to the first that fails. -/
def injectSites (loom : Loom) : SiteMap →
    Except Error Unit × List RoutineId × List Diagnostic × Loom
  | [] => (.ok (), [], [], loom)
  | (index, events) :: rest =>
      match loom.injectSite index events with
      | (.error error, routines, entries, loom) => (.error error, routines, entries, loom)
      | (.ok (), routines, entries, loom) =>
          match loom.injectSites rest with
          | (result, laterRoutines, laterEntries, last) =>
              (result, routines ++ laterRoutines, entries ++ laterEntries, last)

/-- Check that the declared stack of the body covers what its code needs. -/
def checkStack (loom : Loom) : Except Error Unit :=
  match loom.body.requiredMaxStack with
  | .error fault => .error (.synthesis loom.body.text (.inconsistent fault))
  | .ok required =>
      if loom.body.maxStack < required then
        .error (.synthesis loom.body.text (.understatedStack loom.body.maxStack required))
      else .ok ()

/-- Inject at all sites of a map, from the last to the first, and check the outcome. -/
def weave (loom : Loom) (sites : SiteMap) :
    Except Error Unit × List RoutineId × List Diagnostic × Loom :=
  match loom.injectSites sites.reverse with
  | (.error error, routines, entries, loom) => (.error error, routines, entries, loom)
  | (.ok (), routines, entries, loom) => (loom.checkStack, routines, entries, loom)

end Loom

namespace Engine

/-- The entry that reports a body whose new code is at fault; other errors are not reported. -/
def failureReports (body : Body) (error : Error) : List Diagnostic :=
  match error with
  | .synthesis .. =>
      [{ severity := .error, category := .injection, message := error.message,
         method := body.text }]
  | _ => []

/-- Put all events at their sites in a body.  The events are attached for that time, and the body is
woven on a loom of its own.  If that fails the body is as it was, the events are detached again, and
every routine that was allocated for it is discarded. -/
def transform (engine : Engine) (body : Body) :
    Except Error TransformReport × Engine × Body :=
  let sites := engine.siteMap body
  let events := engine.eventsOf sites
  let engine := engine.note (engine.foundReports body)
  if sites.isEmpty then (.ok (.unmodified body), engine, body)
  else
    match (engine.loom body).attachAll [] events with
    | (.error error, loom) => (.error error, engine.withLoom loom, body)
    | (.ok (), attached) =>
        match attached.weave sites with
        | (.ok (), routines, entries, loom) =>
            match loom.release events.reverse with
            | (.error error, loom) => (.error error, (engine.note entries).withLoom loom, body)
            | (.ok (), loom) =>
                (.ok ⟨body.text, true, sites.length, routines⟩,
                  (engine.note entries).withLoom loom, loom.body)
        | (.error error, routines, entries, loom) =>
            let detached := loom.detachAll events
            let discarded :=
              { detached with proxies := routines.foldl Arena.discard detached.proxies }
            (.error error,
              (engine.note (entries ++ failureReports body error)).withLoom discarded, body)

/-- Transform a body; one whose new code is at fault is kept and reported as unmodified. -/
def transformOrKeep (engine : Engine) (body : Body) :
    Except Error TransformReport × Engine × Body :=
  match engine.transform body with
  | (.error (.synthesis _ _), engine, body) => (.ok (.unmodified body), engine, body)
  | outcome => outcome

/-- Transform several bodies up to the first whose error is not its own fault alone. -/
def transformEach (engine : Engine) :
    List Body → Except Error (List TransformReport) × Engine × List Body
  | [] => (.ok [], engine, [])
  | body :: rest =>
      match engine.transformOrKeep body with
      | (.error error, engine, body) => (.error error, engine, body :: rest)
      | (.ok report, engine, body) =>
          match engine.transformEach rest with
          | (.error error, engine, bodies) => (.error error, engine, body :: bodies)
          | (.ok reports, engine, bodies) => (.ok (report :: reports), engine, body :: bodies)

/-- The injections whose target names none of the bodies although its class is among their owners. -/
def missedInjections (engine : Engine) (bodies : List Body) : List Injection :=
  engine.injections.filter fun injection =>
    !bodies.any (injection.target.names engine.settings.epochOrder) &&
      bodies.any fun body => injection.target.hasOwner body.owner

/-- Report the injections that missed their target, and count them. -/
def reportUnresolved (engine : Engine) (bodies : List Body) : Nat × Engine :=
  let missed := engine.missedInjections bodies
  (missed.length,
    engine.note <| missed.map fun injection =>
      { severity := .warning
        category := .resolution
        message := s!"No method matches {injection.target.text} under any naming epoch"
        event := (engine.events.get injection.event).name })

/-- Transform all bodies of a program, and report the injections that missed their target. -/
def transformAll (engine : Engine) (bodies : List Body) :
    Except Error (List TransformReport) × Engine × List Body :=
  match engine.transformEach bodies with
  | (.error error, engine, bodies) => (.error error, engine, bodies)
  | (.ok reports, engine, bodies) => (.ok reports, (engine.reportUnresolved bodies).2, bodies)

end Engine

end Weaver
