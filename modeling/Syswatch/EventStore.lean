import Mathlib.Data.List.AList
import Mathlib.Data.List.Lex
import Syswatch.Events
import Syswatch.Lib.BoundedFifo

/-! # The event store of the web UI (`webui/server.py`)

A `dict` is an `AList`, so that each key stands in it once; the order of its
keys, which nothing here looks at, is not kept. A string is the list of its code
points, an `int` an unbounded one, and a `float` an exact rational. `ingest` is
handed dictionaries that were just decoded, so that they are values here. -/

namespace Syswatch
open Lib

abbrev PyStr := List Nat

def py (s : String) : PyStr := s.toList.map Char.toNat

/-- `dict[str, ...]`. -/
abbrev PyDict (α : Type) := AList fun _ : PyStr => α

/-- The objects that an event may hold: how a `float` is one, and what `str` gives. -/
structure PyObjects (V : Type) where
  ofFloat : ℚ → V
  str : V → PyStr

abbrev EventDict (V : Type) := PyDict V

/-- `EventStore`. -/
structure EventStore (V : Type) where
  maxEvents : Nat
  history : List (EventDict V)
  latestByType : PyDict (EventDict V)
  receivedBatches : Nat
  receivedEvents : Nat
  startedAt : ℚ
  lastIngestedAt : Option ℚ

variable {V : Type} (objects : PyObjects V)

/-- `EventStore(max_events)`, created at `now`. -/
def EventStore.new (maxEvents : Nat) (now : ℚ) : EventStore V where
  maxEvents := maxEvents
  history := []
  latestByType := ∅
  receivedBatches := 0
  receivedEvents := 0
  startedAt := now
  lastIngestedAt := none

/-- `deque(maxlen=...).append(x)`. -/
def dequeAppend {α : Type} (maxlen : Nat) (items : List α) (x : α) : List α :=
  if maxlen < (items ++ [x]).length then (items ++ [x]).tail else items ++ [x]

/-- `event.setdefault("_ingested_at", now)`. -/
def stamp (now : ℚ) (event : EventDict V) : EventDict V :=
  match event.lookup (py "_ingested_at") with
  | some _ => event
  | none => event.insert (py "_ingested_at") (objects.ofFloat now)

/-- `str(event.get("event_type", fallback))`. -/
def typeOr (fallback : PyStr) (event : EventDict V) : PyStr :=
  match event.lookup (py "event_type") with
  | some v => objects.str v
  | none => fallback

def eventType (event : EventDict V) : PyStr := typeOr objects (py "unknown") event

/-- One turn of the loop, with the event stamped. -/
def EventStore.record (store : EventStore V) (event : EventDict V) : EventStore V :=
  { store with
    latestByType := store.latestByType.insert (eventType objects event) event
    history := dequeAppend store.maxEvents store.history event
    receivedEvents := store.receivedEvents + 1 }

/-- `ingest(events)` at time `now`. -/
def EventStore.ingest (store : EventStore V) (now : ℚ) (events : List (EventDict V)) : EventStore V :=
  events.foldl (fun store event => store.record objects (stamp objects now event))
    { store with receivedBatches := store.receivedBatches + 1, lastIngestedAt := some now }

/-- What `latest()` returns. -/
structure Latest (V : Type) where
  eventsByType : PyDict (EventDict V)
  historySize : Nat
  receivedEvents : Nat

def EventStore.latest (store : EventStore V) : Latest V where
  eventsByType := store.latestByType
  historySize := store.history.length
  receivedEvents := store.receivedEvents

/-- `round(x, 2)`. -/
def round2 (x : ℚ) : ℚ :=
  if x < 0 then -(roundHalfEven (-x * 100) / 100) else roundHalfEven (x * 100) / 100

/-- What `health()` returns. -/
structure Health where
  status : PyStr
  uptimeSeconds : ℚ
  receivedBatches : Nat
  receivedEvents : Nat
  historySize : Nat
  lastEventAgeSeconds : Option ℚ
  expectedEventTypes : List PyStr
  seenEventTypes : List PyStr

/-- `health()`; the clock is read at `now` for the uptime and at `ageNow` for the age. -/
def EventStore.health (store : EventStore V) (now ageNow : ℚ) : Health where
  status := py "ok"
  uptimeSeconds := round2 (now - store.startedAt)
  receivedBatches := store.receivedBatches
  receivedEvents := store.receivedEvents
  historySize := store.history.length
  lastEventAgeSeconds := store.lastIngestedAt.map fun t => round2 (ageNow - t)
  expectedEventTypes := [py "system.metrics.cpu", py "system.metrics.memory",
    py "system.metrics.disk", py "system.metrics.network"]
  seenEventTypes := store.latestByType.keys.mergeSort fun a b => a ≤ b

/-- `items[-limit:]` for a positive `limit`. -/
def lastItems {α : Type} (items : List α) (limit : Int) : List α :=
  items.drop (items.length - limit).toNat

/-- `history(event_type, limit)`; an empty type is no type. -/
def EventStore.historyOf (store : EventStore V) (type : Option PyStr) (limit : Int) :
    List (EventDict V) :=
  let limit := max 1 (min limit 2000)
  let items := match type with
    | none => store.history
    | some t =>
      if t = [] then store.history else store.history.filter fun e => typeOr objects [] e = t
  lastItems items limit

end Syswatch
