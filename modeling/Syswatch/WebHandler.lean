import Syswatch.EventHistory
import Syswatch.Lib.PyLimits

/-! # The POST handler of the web UI (`webui/server.py`)

A request comes with the path that `urlparse` finds in its target. A response is
its status and the `dict` that is sent as JSON. An exception that the handler
does not catch ends it with what has been sent by then, which is nothing. -/

namespace Syswatch.WebHandler
open Lib CText PyJson PyLimits Unicode

abbrev EventObject := EventDict PyValue

/-- The `dict` of decoded items; a key that comes again is set again. -/
def pyDict (members : List (PyStr × PyValue)) : EventObject :=
  members.foldl (fun d m => d.insert m.1 m.2) ∅

def isSpace (c : Nat) : Bool := (9 ≤ c && c ≤ 13) || (28 ≤ c && c ≤ 32) || c == 0x85 || c == 0xA0

/-- Digits, with single underscores between them. -/
def pyNat (limits : Limits) (s : PyStr) : Option Nat :=
  let groups := s.splitOn 95
  let ds := groups.flatten
  if (groups.all fun g => g ≠ [] && g.all isDigit) ∧
      (limits.maxStrDigits = 0 ∨ ds.length ≤ limits.maxStrDigits) then some (digitsValue ds)
  else none

/-- `int(s)` of a header, which holds characters of Latin-1; `none` stands for a `ValueError`. -/
def pyInt (limits : Limits) (s : PyStr) : Option Int :=
  match (s.dropWhile isSpace).rdropWhile isSpace with
  | 43 :: ds => (pyNat limits ds).map Int.ofNat
  | 45 :: ds => (pyNat limits ds).map fun n => -Int.ofNat n
  | ds => (pyNat limits ds).map Int.ofNat

/-- What the handler reads of a request. -/
structure PostRequest where
  path : PyStr
  contentLength : Option PyStr
  rfile : Bytes

inductive HTTPStatus where
  | ok
  | badRequest
  | notFound
  deriving DecidableEq

def HTTPStatus.value : HTTPStatus → Nat
  | .ok => 200
  | .badRequest => 400
  | .notFound => 404

structure Response where
  status : HTTPStatus
  payload : List (PyStr × PyValue)

/-- What has been sent and stored when the handler ends. -/
structure Served where
  responses : List Response
  store : EventStore PyValue

/-- What the interpreter supplies: the time, the time as a text, the text of the
`JSONDecodeError` for a body, and its limits. -/
structure Host where
  now : ℚ
  strftime : PyStr
  detail : Bytes → PyStr
  limits : Limits

def field (name value : String) : PyStr × PyValue := (py name, .str (py value))

/-! ## The demo events -/

def demoEvent (nowTs : PyStr) (type : String) (payload : List (PyStr × PyValue)) : EventObject :=
  pyDict [field "schema_version" "1.0", (py "timestamp", .str nowTs),
    field "source" "syswatch-demo", field "source_version" "0.1.1", field "host" "demo-host",
    field "event_type" type, field "severity" "info", (py "payload", .dict payload)]

def demoEvents (nowTs : PyStr) : List EventObject :=
  [demoEvent nowTs "system.metrics.cpu"
      [(py "user_pct", .float (py "22.4")), (py "system_pct", .float (py "7.1")),
        (py "idle_pct", .float (py "70.5")), (py "usage_pct", .float (py "29.5")),
        (py "interval_seconds", .int 1)],
    demoEvent nowTs "system.metrics.memory"
      [(py "mem_used_bytes", .int 8450304000), (py "mem_available_bytes", .int 4026531840),
        (py "swap_used_bytes", .int 268435456)],
    demoEvent nowTs "system.metrics.disk"
      [(py "read_bps", .float (py "131072.0")), (py "write_bps", .float (py "262144.0"))],
    demoEvent nowTs "system.metrics.network"
      [(py "rx_bps", .float (py "8192.0")), (py "tx_bps", .float (py "4096.0"))]]

/-! ## The handler -/

/-- `isinstance(item, dict)`, with the `dict`. -/
def asDict : PyValue → Option EventObject
  | .dict members => some (pyDict members)
  | _ => none

/-- The `events` of a payload; `none` is neither an object nor an array. -/
def payloadEvents : PyValue → Option (List EventObject)
  | .dict members => some [pyDict members]
  | .list items => some (items.filterMap asDict)
  | _ => none

/-- `_send_json`, the last thing that the handler does. -/
def sendJson (store : EventStore PyValue) (status : HTTPStatus) (payload : List (PyStr × PyValue)) :
    Served where
  responses := [⟨status, payload⟩]
  store := store

variable (objects : PyObjects PyValue) (host : Host)

/-- The handler from where the body has been read. -/
def receive (store : EventStore PyValue) (body : Bytes) : Served :=
  match host.limits.loads body with
  | .error .jsonDecodeError =>
    sendJson store .badRequest [field "error" "invalid_json", (py "detail", .str (host.detail body))]
  | .error _ => ⟨[], store⟩
  | .ok parsed =>
    match payloadEvents parsed with
    | none => sendJson store .badRequest [field "error" "invalid_payload_type"]
    | some [] => sendJson store .badRequest [field "error" "no_event_objects"]
    | some events =>
      sendJson (store.ingest objects host.now events) .ok
        [(py "ok", .bool true), (py "accepted", .int events.length)]

/-- `do_POST`. -/
def doPost (store : EventStore PyValue) (request : PostRequest) : Served :=
  if request.path = py "/api/demo-seed" then
    let demo := demoEvents host.strftime
    sendJson (store.ingest objects host.now demo) .ok
      [(py "ok", .bool true), (py "seeded", .int demo.length)]
  else if request.path ≠ py "/events" then
    sendJson store .notFound [field "error" "not_found", (py "path", .str request.path)]
  else
    match pyInt host.limits (request.contentLength.getD (py "0")) with
    | none => sendJson store .badRequest [field "error" "invalid_content_length"]
    | some bodyLen =>
      if bodyLen ≤ 0 then sendJson store .badRequest [field "error" "empty_body"]
      else receive objects host store (request.rfile.take bodyLen.toNat)

/-! ## One response for each body -/

/-- The objects of a payload: itself, or its elements that are objects. -/
def payloadObjects : PyValue → List (List (PyStr × PyValue))
  | .dict members => [members]
  | .list items => items.filterMap fun item =>
    match item with
    | .dict members => some members
    | _ => none
  | _ => []

/-- `store'` is `store` with these objects, behind all that it held. -/
structure Extended (store store' : EventStore PyValue) (added : List (List (PyStr × PyValue))) : Prop where
  ingested : store' = store.ingest objects host.now (added.map pyDict)
  held : ∀ {m : Nat} {all : List EventObject} {batches : Nat}, 0 < m →
    EventHistory.Holds objects m all batches store →
      EventHistory.Holds objects m (all ++ added.map fun ms => stamp objects host.now (pyDict ms))
        (batches + 1) store'

/-- One response is sent. One of 4xx leaves the store alone, and one of 200 counts
the objects of the body, of which there are some and which are now stored. -/
def Answered (store : EventStore PyValue) (body : Bytes) (served : Served) : Prop :=
  ∃ response, served.responses = [response] ∧
    (400 ≤ response.status.value ∧ response.status.value < 500 → served.store = store) ∧
    (response.status.value = 200 → ∃ parsed, host.limits.loads body = .ok parsed ∧
      response.payload =
        [(py "ok", .bool true), (py "accepted", .int (payloadObjects parsed).length)] ∧
      1 ≤ (payloadObjects parsed).length ∧
      Extended objects host store served.store (payloadObjects parsed))

variable {objects host}

theorem Extended.of_ingest (store : EventStore PyValue) (added : List (List (PyStr × PyValue))) :
    Extended objects host store (store.ingest objects host.now (added.map pyDict)) added where
  ingested := rfl
  held hm h := by
    have := h.ingest hm host.now (added.map pyDict)
    rwa [List.map_map] at this

theorem Answered.refused {store : EventStore PyValue} {body : Bytes} (payload : List (PyStr × PyValue)) :
    Answered objects host store body (sendJson store .badRequest payload) :=
  ⟨_, rfl, fun _ => rfl, fun h => nomatch h⟩

/-- The events are the objects. -/
theorem payloadEvents_some {parsed : PyValue} {events : List EventObject}
    (h : payloadEvents parsed = some events) : events = (payloadObjects parsed).map pyDict := by
  cases parsed with
  | dict members => cases h; rfl
  | list items =>
    cases h
    rw [payloadObjects, List.map_filterMap]
    congr 1
    funext item
    cases item <;> rfl
  | _ => cases h

/-- The body is a text in the encoding that is detected, and its reading comes to an
end, or to a syntax error, before it comes to a limit. -/
def Readable (limits : Limits) (body : Bytes) : Prop :=
  ∃ text, decode body (detectEncoding body) = some text ∧
    ∀ e, limits.decodeText text = .error e → e = .jsonDecodeError

theorem readable_iff {limits : Limits} {body : Bytes} :
    Readable limits body ↔ ∀ e, limits.loads body = .error e → e = .jsonDecodeError := by
  unfold Readable Limits.loads
  cases decode body (detectEncoding body) with
  | none => simp
  | some text => simp

theorem receive_answered (store : EventStore PyValue) (body : Bytes) :
    Answered objects host store body (receive objects host store body) ↔ Readable host.limits body := by
  rw [readable_iff]
  constructor
  · intro ⟨response, hone, _⟩ e he
    rw [receive, he] at hone
    cases e with
    | jsonDecodeError => rfl
    | unicodeDecodeError | valueError | recursionError => cases hone
  · intro hreads
    cases hloads : host.limits.loads body with
    | error e =>
      rw [receive, hloads, hreads e hloads]
      exact .refused _
    | ok parsed =>
      rw [receive, hloads]
      dsimp only
      split
      · exact .refused _
      · exact .refused _
      · next events hne hevents =>
        obtain rfl := payloadEvents_some hevents
        have hok : ¬400 ≤ HTTPStatus.ok.value := by decide
        refine ⟨_, rfl, fun h => absurd h.1 hok, fun _ => ⟨parsed, hloads, ?_, ?_, .of_ingest store _⟩⟩
        · rw [List.length_map]
        · refine List.length_pos_iff.mpr fun hnil => hne ?_
          rw [hnil, List.map_nil]

theorem doPost_events (store : EventStore PyValue) {request : PostRequest} {length : PyStr}
    {body rest : Bytes} (hpath : request.path = py "/events")
    (hlength : request.contentLength = some length)
    (hmatch : pyInt host.limits length = some (body.length : Int))
    (hbody : body ≠ []) (hread : request.rfile = body ++ rest) :
    doPost objects host store request = receive objects host store body := by
  have hpos : ¬(body.length : Int) ≤ 0 := by
    have := List.length_pos_iff.mpr hbody
    omega
  rw [doPost, if_neg (by rw [hpath]; decide), if_neg (not_not.mpr hpath), hlength, Option.getD_some,
    hmatch]
  simp only [if_neg hpos, hread, Int.toNat_natCast, List.take_left]

/-- **Which bodies are answered.** The handler catches the error for a text that is no
JSON, and neither the one for bytes that are no text nor those of the limits. -/
theorem post_answered_iff (objects : PyObjects PyValue) (host : Host) (store : EventStore PyValue)
    {request : PostRequest} {length : PyStr} {body rest : Bytes} (hpath : request.path = py "/events")
    (hlength : request.contentLength = some length)
    (hmatch : pyInt host.limits length = some (body.length : Int))
    (hbody : body ≠ []) (hread : request.rfile = body ++ rest) :
    Answered objects host store body (doPost objects host store request) ↔ Readable host.limits body := by
  rw [doPost_events store hpath hlength hmatch hbody hread]
  exact receive_answered store body

def sampleObjects : PyObjects PyValue where
  ofFloat _ := .float (py "0.0")
  str v := match v with
    | .str s => s
    | _ => []

/-- The limits that Python has by default, less the calls that are active in the handler. -/
def sampleLimits : Limits := ⟨4300, 980, .inr (by decide)⟩

def sampleHost : Host :=
  ⟨0, py "12:00:00", fun _ => py "Expecting value: line 1 column 1 (char 0)", sampleLimits⟩

/-- A body sent to `/events`. -/
def eventsRequest (length : String) (body : Bytes) : PostRequest :=
  ⟨py "/events", some (py length), body⟩

theorem sampleBody_readable : Readable sampleHost.limits (ascii "[1, \x7b\x7d]") := by
  refine ⟨[91, 49, 44, 32, 123, 125, 93], by decide +kernel, fun e he => ?_⟩
  have hone : Short 4300 1 := short_of_lt (show 1 < 10 ^ 1 by decide) (by decide)
  have hread : sampleHost.limits.decodeText [91, 49, 44, 32, 123, 125, 93] = .ok (.list [.int 1, .dict []]) :=
    Limits.decodeText_eq_ok.mpr ⟨rfl, by decide, hone, ⟨by decide, trivial⟩, trivial⟩
  cases hread.symm.trans he

theorem post_answered_iff_example :
    Answered sampleObjects sampleHost (.new 100 0) (ascii "[1, \x7b\x7d]")
      (doPost sampleObjects sampleHost (.new 100 0) (eventsRequest "7" (ascii "[1, \x7b\x7d]"))) :=
  (post_answered_iff sampleObjects sampleHost (.new 100 0) rfl rfl (by decide) (by decide)
    (List.append_nil _).symm).mpr sampleBody_readable

/-- A byte that starts no character. -/
theorem undecodable_unanswered :
    ¬Answered sampleObjects sampleHost (.new 100 0) [0xFF]
      (doPost sampleObjects sampleHost (.new 100 0) (eventsRequest "1" [0xFF])) := by
  rintro ⟨response, hone, -⟩
  have hnone : (doPost sampleObjects sampleHost (.new 100 0) (eventsRequest "1" [0xFF])).responses = [] := rfl
  rw [hnone] at hone
  cases hone

end Syswatch.WebHandler
