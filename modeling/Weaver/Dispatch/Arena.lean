import Weaver.Dispatch.Body
import Weaver.Settings

/-!
# The arena of dispatch routines

Routines live in proxy types.  A new routine goes into the last type; when that is full the next one
is opened, named after the first with its number.  A routine that is discarded leaves its type, but
it can still be looked up by those who hold its number.
-/

namespace Weaver

/-- A proxy type with the routines that live in it. -/
structure ProxyType where
  name : String
  members : List RoutineId
  deriving DecidableEq

/-- A proxy type with the bodies of its routines. -/
structure GeneratedProxy where
  name : String
  methods : List Body

/-- All routines that were allocated, and the types of those that live. -/
structure Arena where
  className : String
  namePrefix : String
  /-- The number of routines that a type holds. -/
  capacity : Nat
  /-- All routines, in the order of allocation. -/
  routines : Array Routine
  types : List ProxyType

namespace Arena

/-- The empty arena; a type holds at least one routine. -/
def ofSettings (settings : Settings) : Arena :=
  ⟨settings.proxyClass, settings.dispatchPrefix, max settings.maxProxyMethods 1, #[], []⟩

/-- The routine of a number. -/
def get? (arena : Arena) (id : RoutineId) : Option Routine :=
  if id.number = 0 then none else arena.routines[id.number - 1]?

/-- The routine of a number, and an empty one for a number of another arena. -/
def get (arena : Arena) (id : RoutineId) : Routine := (arena.get? id).getD default

/-- Put another state of a routine in the place of its present one. -/
def put (arena : Arena) (routine : Routine) : Arena :=
  { arena with routines := arena.routines.setIfInBounds (routine.id.number - 1) routine }

/-- The name of the type at a position. -/
def typeName (arena : Arena) (position : Nat) : String :=
  if position = 0 then arena.className else s!"{arena.className}${position}"

/-- The types with room for one more routine in the last one: a new type is opened if there is none
or the last one is full. -/
def opened (arena : Arena) : List ProxyType × ProxyType :=
  let fresh : ProxyType := ⟨arena.typeName arena.types.length, []⟩
  match arena.types.getLast? with
  | none => (arena.types, fresh)
  | some last =>
      if arena.capacity ≤ last.members.length then (arena.types, fresh)
      else (arena.types.dropLast, last)

/-- The digits of a number, with zeros in front up to a width. -/
def padded (width number : Nat) : String :=
  let digits := toString number
  String.ofList (List.replicate (width - digits.length) '0') ++ digits

/-- Allocate the routine of a site. -/
def allocate (arena : Arena) (body : Body) (wrapper : Wrapper) (site : Nat) (cancellable : Bool) :
    RoutineId × Arena :=
  let id : RoutineId := ⟨arena.routines.size + 1⟩
  let (before, last) := arena.opened
  let routine : Routine :=
    { id
      name := arena.namePrefix ++ padded 5 id.number
      proxyClass := last.name
      target := body.text
      site
      signature := Routine.signatureFor wrapper body
      cancellable
      events := [] }
  (id,
    { arena with
      routines := arena.routines.push routine
      types := before ++ [{ last with members := last.members ++ [id] }] })

/-- Take a routine out of its type. -/
def discard (arena : Arena) (id : RoutineId) : Arena :=
  { arena with
    types := arena.types.map fun type =>
      { type with members := type.members.filter (· ≠ id) } }

/-- The numbers of the routines that live, type by type. -/
def live (arena : Arena) : List RoutineId := arena.types.flatMap ProxyType.members

/-- The bodies of some routines up to the first that fails, and all warnings up to there. -/
def generateAll (arena : Arena) (store : EventStore) :
    List RoutineId → Except Error (List Body) × List Diagnostic
  | [] => (.ok [], [])
  | id :: rest =>
      match (arena.get id).generate store with
      | (.error error, warnings) => (.error error, warnings)
      | (.ok body, warnings) =>
          match generateAll arena store rest with
          | (.error error, later) => (.error error, warnings ++ later)
          | (.ok bodies, later) => (.ok (body :: bodies), warnings ++ later)

/-- The proxies of some types up to the first that fails, and all warnings up to there. -/
def generateTypes (arena : Arena) (store : EventStore) :
    List ProxyType → Except Error (List GeneratedProxy) × List Diagnostic
  | [] => (.ok [], [])
  | type :: rest =>
      match arena.generateAll store type.members with
      | (.error error, warnings) => (.error error, warnings)
      | (.ok methods, warnings) =>
          match generateTypes arena store rest with
          | (.error error, later) => (.error error, warnings ++ later)
          | (.ok proxies, later) => (.ok (⟨type.name, methods⟩ :: proxies), warnings ++ later)

/-- The proxy types with the bodies of their routines; a type without routines is left out. -/
def generate (arena : Arena) (store : EventStore) :
    Except Error (List GeneratedProxy) × List Diagnostic :=
  arena.generateTypes store (arena.types.filter (!·.members.isEmpty))

end Arena

end Weaver
