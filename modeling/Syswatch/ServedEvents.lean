import Syswatch.Lib.PyTexts
import Syswatch.WebHandler

/-! # What the web UI serves of what it accepts (`webui/server.py`)

The requests to `/events` are handled one after the other, and `/api/history` and
`/api/latest` write out what the store then holds. The store does not keep the
order of the items of a `dict`, so that a response is one of several texts. -/

namespace Syswatch.ServedEvents
open Lib CText PyJson Unicode PyFloat PyDumps EventHistory WebHandler
open JsonText (utf8)

variable (objects : PyObjects PyValue)

/-! ## Requests -/

/-- The objects of a request that is answered with 200; none of any other. -/
def accepted (host : Host) (request : PostRequest) : List EventObject :=
  match pyInt host.limits (request.contentLength.getD (py "0")) with
  | none => []
  | some bodyLen =>
    if bodyLen ≤ 0 then []
    else match host.limits.loads (request.rfile.take bodyLen.toNat) with
      | .ok parsed => (payloadObjects parsed).map pyDict
      | .error _ => []

/-- Requests in the order they are handled, each with what the interpreter supplies. -/
abbrev Posts := List (Host × PostRequest)

def afterPosts (store : EventStore PyValue) (posts : Posts) : EventStore PyValue :=
  posts.foldl (fun store post => (doPost objects post.1 store post.2).store) store

/-- The calls of `ingest`. -/
def calls (posts : Posts) : Calls PyValue :=
  posts.filterMap fun post =>
    match accepted post.1 post.2 with
    | [] => none
    | events => some (post.1.now, events)

/-! ## Responses -/

/-- The items of a `dict` in some order. -/
def ItemsOf {α : Type} (d : PyDict α) (items : List (PyStr × α)) : Prop :=
  items.Perm (d.entries.map fun entry => (entry.1, entry.2))

/-- An event as a value. -/
def IsEvent (v : PyValue) (event : EventObject) : Prop := ∃ items, ItemsOf event items ∧ v = .dict items

/-- The body that `_send_json` sends. -/
def jsonBody (payload : List (PyStr × PyValue)) : Bytes := (dumps (.dict payload)).flatMap utf8

/-- A response to `/api/history`. -/
def HistoryBody (store : EventStore PyValue) (type : Option PyStr) (limit : Int) (body : Bytes) : Prop :=
  ∃ events, List.Forall₂ IsEvent events (store.historyOf objects type limit) ∧
    body = jsonBody [(py "events", .list events)]

/-- A response to `/api/latest`. Each type comes with its event as a value. -/
def LatestBody (latest : Latest PyValue) (body : Bytes) : Prop :=
  ∃ shown : List (PyStr × PyValue × EventObject),
    ItemsOf latest.eventsByType (shown.map fun s => (s.1, s.2.2)) ∧ (∀ s ∈ shown, IsEvent s.2.1 s.2.2) ∧
      body = jsonBody [(py "events_by_type", .dict (shown.map fun s => (s.1, s.2.1))),
        (py "history_size", .int latest.historySize), (py "received_events", .int latest.receivedEvents)]

/-- The value has the keys of the event, with the same objects. -/
def Decodes (v : PyValue) (event : EventObject) : Prop :=
  ∃ items, v = .dict items ∧ ∀ key, (pyDict items).lookup key = (event.lookup key).map canonical

/-- JSON that is decoded to these events. -/
structure HistoryServed (body : Bytes) (events : List EventObject) : Prop where
  valid : ValidJson body
  decoded : ∃ items, loads body = .value (.dict [(py "events", .list items)]) ∧
    List.Forall₂ Decodes items events

/-- JSON that is decoded to these events by type. -/
structure LatestServed (body : Bytes) (latest : Latest PyValue) : Prop where
  valid : ValidJson body
  decoded : ∃ items, loads body = .value (.dict [(py "events_by_type", .dict items),
      (py "history_size", .int latest.historySize), (py "received_events", .int latest.receivedEvents)]) ∧
    ∀ t, Option.Rel Decodes ((pyDict items).lookup t) (latest.eventsByType.lookup t)

/-- Each response is JSON and is decoded to the events of the store. Between
`latest()` and `json.dumps` other requests may come, so that the two numbers may be
any others. -/
structure Serves (store : EventStore PyValue) : Prop where
  history : ∀ type limit body, HistoryBody objects store type limit body →
    HistoryServed body (store.historyOf objects type limit)
  latest : ∀ latest body, latest.eventsByType = store.latestByType → LatestBody latest body →
    LatestServed body latest

/-- What can be sent as JSON and be read back: each `float` is finite, and no two
characters of a text are the halves of another one. -/
def Servable (event : EventObject) : Prop :=
  ∀ key v, event.lookup key = some v → Unpaired key ∧ Every IsFinite Unpaired (canonical v)

/-- What Python promises. `str` leaves a string alone and spells anything else
without surrogates, and the clock is a finite number. -/
structure Interpreter (posts : Posts) : Prop where
  strOfStr : ∀ s, objects.str (.str s) = s
  strOfOther : ∀ v, (∀ s, v ≠ .str s) → ∀ c ∈ objects.str v, c < 0x110000 ∧ ¬IsHigh c
  clock : ∀ post ∈ posts, ∃ literal, objects.ofFloat post.1.now = .float literal ∧ IsFinite literal

variable {objects}

/-! ## The store after the requests -/

/-- A request is answered with 200 and its objects are ingested, or it is refused
or not answered, and the store stays. -/
theorem doPost_cases (objects : PyObjects PyValue) (host : Host) (store : EventStore PyValue)
    {request : PostRequest} (hpath : request.path = py "/events") :
    (accepted host request ≠ [] ∧ doPost objects host store request =
      sendJson (store.ingest objects host.now (accepted host request)) .ok
        [(py "ok", .bool true), (py "accepted", .int (accepted host request).length)]) ∨
    (accepted host request = [] ∧ (doPost objects host store request).store = store ∧
      ∀ response ∈ (doPost objects host store request).responses, response.status ≠ .ok) := by
  have hrefused (payload : List (PyStr × PyValue)) :
      ∀ response ∈ (sendJson store .badRequest payload).responses, response.status ≠ .ok := by
    simp [sendJson]
  rw [doPost, if_neg (by rw [hpath]; decide), if_neg (not_not.mpr hpath), accepted]
  cases hlen : pyInt host.limits (request.contentLength.getD (py "0")) with
  | none => exact .inr ⟨rfl, rfl, hrefused _⟩
  | some bodyLen =>
    dsimp only
    split_ifs with hpos
    · exact .inr ⟨rfl, rfl, hrefused _⟩
    · rw [receive]
      cases hloads : host.limits.loads (request.rfile.take bodyLen.toNat) with
      | error e =>
        cases e with
        | jsonDecodeError => exact .inr ⟨rfl, rfl, hrefused _⟩
        | unicodeDecodeError | valueError | recursionError =>
          exact .inr ⟨rfl, rfl, List.forall_mem_nil _⟩
      | ok parsed =>
        dsimp only
        cases hevents : payloadEvents parsed with
        | none =>
          refine .inr ⟨?_, rfl, hrefused _⟩
          cases parsed with
          | dict members => cases hevents
          | list items => cases hevents
          | _ => rfl
        | some events =>
          rw [← payloadEvents_some hevents]
          cases events with
          | nil => exact .inr ⟨rfl, rfl, hrefused _⟩
          | cons event events => exact .inl ⟨List.cons_ne_nil _ _, rfl⟩

/-- Requests leave the store that their calls of `ingest` leave. -/
theorem afterPosts_eq {posts : Posts} (hpath : ∀ post ∈ posts, post.2.path = py "/events")
    (store : EventStore PyValue) :
    afterPosts objects store posts = ingestAll objects store (calls posts) := by
  induction posts generalizing store with
  | nil => rfl
  | cons post posts ih =>
    -- a request that ingests is one call, and any other none
    have hrest := ih fun p hp => hpath p (List.mem_cons_of_mem _ hp)
    rw [afterPosts, List.foldl_cons, ← afterPosts, calls, List.filterMap_cons]
    rcases doPost_cases objects post.1 store (hpath post List.mem_cons_self) with
      ⟨hne, hpost⟩ | ⟨hnil, hpost, -⟩
    · rw [hrest, hpost]
      obtain ⟨event, events, hevents⟩ := List.exists_cons_of_ne_nil hne
      rw [hevents]
      rfl
    · rw [hrest, hpost, hnil]
      rfl

theorem mem_arrived {posts : Posts} {event : EventObject} (h : event ∈ arrived objects (calls posts)) :
    ∃ post ∈ posts, ∃ given ∈ accepted post.1 post.2, event = stamp objects post.1.now given := by
  obtain ⟨call, hcall, hevent⟩ := List.mem_flatMap.mp h
  obtain ⟨post, hpost, hcall⟩ := List.mem_filterMap.mp hcall
  split at hcall
  · cases hcall
  · cases hcall
    obtain ⟨given, hgiven, rfl⟩ := List.mem_map.mp hevent
    exact ⟨post, hpost, given, hgiven, rfl⟩

/-! ## The items of a `dict` -/

theorem pyDict_append (items : List (PyStr × PyValue)) (item : PyStr × PyValue) :
    pyDict (items ++ [item]) = (pyDict items).insert item.1 item.2 := by
  rw [pyDict, List.foldl_append]
  rfl

theorem mem_of_lookup_pyDict {items : List (PyStr × PyValue)} {key : PyStr} {v : PyValue}
    (h : (pyDict items).lookup key = some v) : (key, v) ∈ items := by
  induction items using List.reverseRecOn with
  | nil => cases h
  | append_singleton items item ih =>
    rw [pyDict_append] at h
    rw [List.mem_append, List.mem_singleton]
    by_cases hkey : key = item.1
    · subst hkey
      rw [AList.lookup_insert] at h
      cases h
      exact .inr rfl
    · rw [AList.lookup_insert_ne hkey] at h
      exact .inl (ih h)

theorem lookup_pyDict_of_nodup {items : List (PyStr × PyValue)} (hnodup : (items.map Prod.fst).Nodup)
    {key : PyStr} {v : PyValue} : (pyDict items).lookup key = some v ↔ (key, v) ∈ items := by
  refine ⟨mem_of_lookup_pyDict, fun h => ?_⟩
  induction items using List.reverseRecOn with
  | nil => cases h
  | append_singleton items item ih =>
    rw [List.map_append, List.nodup_append] at hnodup
    rw [pyDict_append]
    rcases List.mem_append.mp h with h | h
    · -- the last item has another key, and leaves the earlier one alone
      have hne : key ≠ item.1 := hnodup.2.2 key (List.mem_map_of_mem h) _ (List.mem_singleton_self _)
      rw [AList.lookup_insert_ne hne]
      exact ih hnodup.1 h
    · obtain rfl := List.mem_singleton.mp h
      exact AList.lookup_insert _

theorem ItemsOf.mem_iff {α : Type} {d : PyDict α} {items : List (PyStr × α)} (h : ItemsOf d items)
    {key : PyStr} {x : α} : (key, x) ∈ items ↔ d.lookup key = some x := by
  rw [List.Perm.mem_iff h, List.mem_map, ← Option.mem_def, AList.mem_lookup_iff]
  constructor
  · rintro ⟨entry, hentry, heq⟩
    cases heq
    exact hentry
  · exact fun hentry => ⟨_, hentry, rfl⟩

theorem ItemsOf.nodup {α : Type} {d : PyDict α} {items : List (PyStr × α)} (h : ItemsOf d items) :
    (items.map Prod.fst).Nodup := by
  rw [(h.map Prod.fst).nodup_iff, List.map_map]
  exact d.keys_nodup

/-- A `dict` that has each key once keeps its items. -/
theorem canonical_dict {items : List (PyStr × PyValue)} (hnodup : (items.map Prod.fst).Nodup) :
    canonical (.dict items) = .dict (items.map fun item => (item.1, canonical item.2)) := by
  rw [canonical, canonicalMembers_eq, dictItems_of_nodup]
  rwa [List.map_map]

theorem lookup_canonical {items : List (PyStr × PyValue)} (hnodup : (items.map Prod.fst).Nodup)
    (key : PyStr) : (pyDict (items.map fun item => (item.1, canonical item.2))).lookup key =
      ((pyDict items).lookup key).map canonical := by
  have hnodup' : ((items.map fun item => (item.1, canonical item.2)).map Prod.fst).Nodup := by
    rwa [List.map_map]
  refine Option.ext fun v => ?_
  rw [lookup_pyDict_of_nodup hnodup', List.mem_map, Option.map_eq_some_iff]
  simp only [lookup_pyDict_of_nodup hnodup]
  constructor
  · rintro ⟨item, hitem, heq⟩
    cases heq
    exact ⟨item.2, hitem, rfl⟩
  · rintro ⟨x, hx, rfl⟩
    exact ⟨_, hx, rfl⟩

theorem IsEvent.decodes {v : PyValue} {event : EventObject} (h : IsEvent v event) :
    Decodes (canonical v) event := by
  obtain ⟨items, hitems, rfl⟩ := h
  refine ⟨_, canonical_dict hitems.nodup, fun key => ?_⟩
  rw [lookup_canonical hitems.nodup]
  refine congrArg _ (Option.ext fun x => ?_)
  rw [lookup_pyDict_of_nodup hitems.nodup, hitems.mem_iff]

theorem IsEvent.every {onFloat onText : Text → Prop} {v : PyValue} {event : EventObject}
    (h : IsEvent v event) : Every onFloat onText (canonical v) ↔
      ∀ key x, event.lookup key = some x → onText key ∧ Every onFloat onText (canonical x) := by
  obtain ⟨items, hitems, rfl⟩ := h
  rw [canonical_dict hitems.nodup, Every, everyMember_iff, List.forall_mem_map, Prod.forall]
  simp only [hitems.mem_iff]

/-! ## The events that are stored -/

/-- What is known of an event that can be served. -/
def Sound (event : EventObject) : Prop :=
  ∀ key v, event.lookup key = some v → Whole key ∧ Every IsFinite Whole (canonical v)

/-- Its texts are read back as they are. -/
def Legible (event : EventObject) : Prop :=
  ∀ key v, event.lookup key = some v → Whole key ∧ Every (fun _ => True) Whole (canonical v)

/-- Each `float` of it is. -/
def Finite (event : EventObject) : Prop :=
  ∀ key v, event.lookup key = some v → Every IsFinite (fun _ => True) (canonical v)

theorem Sound.legible {event : EventObject} (h : Sound event) : Legible event :=
  fun key v hv => ⟨(h key v hv).1, (h key v hv).2.mono (fun _ _ => trivial) fun _ hs => hs⟩

theorem Sound.finite {event : EventObject} (h : Sound event) : Finite event :=
  fun key v hv => (h key v hv).2.mono (fun _ hl => hl) fun _ _ => trivial

theorem whole_of_no_high {s : Text} (h : ∀ c ∈ s, c < 0x110000 ∧ ¬IsHigh c) : Whole s := by
  refine ⟨fun c hc => (h c hc).1, List.Pairwise.isChain ?_⟩
  exact List.pairwise_of_forall_mem_list fun a ha _ _ hpair => (h a ha).2 hpair.1

theorem whole_ascii {s : Text} (h : ∀ c ∈ s, c < 0x80) : Whole s := by
  refine whole_of_no_high fun c hc => ?_
  have := h c hc
  unfold IsHigh
  omega

theorem payloadObjects_every {onFloat onText : Text → Prop} {parsed : PyValue}
    (h : Every onFloat onText parsed) :
    ∀ members ∈ payloadObjects parsed, EveryMember onFloat onText members := by
  cases parsed with
  | dict members => exact List.forall_mem_singleton.mpr h
  | list items =>
    intro members hmembers
    obtain ⟨item, hitem, heq⟩ := List.mem_filterMap.mp hmembers
    rw [Every, everyItem_iff] at h
    have hevery := h item hitem
    split at heq
    · cases heq
      exact hevery
    · cases heq
  | _ => exact List.forall_mem_nil _

/-- The texts of an accepted object are those of a body. -/
theorem accepted_encodable {host : Host} {request : PostRequest} {event : EventObject}
    (h : event ∈ accepted host request)
    {key : PyStr} {v : PyValue} (hv : event.lookup key = some v) :
    Unicode.Encodable key ∧ Every (fun _ => True) Unicode.Encodable v := by
  unfold accepted at h
  split at h
  · cases h
  · split_ifs at h
    · cases h
    · split at h
      · next parsed hloads =>
        obtain ⟨members, hmembers, rfl⟩ := List.mem_map.mp h
        obtain ⟨hread, -⟩ := PyLimits.Limits.loads_eq_ok.mp hloads
        have hevery := payloadObjects_every (PyTexts.loads_encodable hread) members hmembers
        exact everyMember_iff.mp hevery (key, v) (mem_of_lookup_pyDict hv)
      · cases h

theorem isFinite_spelled {literal : Text} (h : IsFinite literal) :
    IsFinite (floatText (readFloat literal)) := by
  obtain ⟨negative, magnitude, hread⟩ := h
  exact ⟨negative, magnitude, (denotes_floatText (readFloat_proper literal)).2.trans hread⟩

theorem sound_accepted {host : Host} {request : PostRequest} {event : EventObject}
    (h : event ∈ accepted host request)
    (hservable : Servable event) : Sound event := by
  intro key v hv
  obtain ⟨hkey, hevery⟩ := accepted_encodable h hv
  obtain ⟨hunpaired, hfinite⟩ := hservable key v hv
  have hboth := (every_text_canonical hevery).and hfinite
  exact ⟨⟨hkey, hunpaired⟩, hboth.mono (fun _ hl => hl.2) fun _ hs => hs⟩

theorem Sound.stamp {event : EventObject} (h : Sound event) {now : ℚ} {literal : Text}
    (hclock : objects.ofFloat now = .float literal) (hfinite : IsFinite literal) :
    Sound (stamp objects now event) := by
  unfold Syswatch.stamp
  split
  · exact h
  · intro key v hv
    by_cases hkey : key = py "_ingested_at"
    · subst hkey
      rw [AList.lookup_insert, hclock] at hv
      cases hv
      exact ⟨whole_ascii (by decide), isFinite_spelled hfinite⟩
    · rw [AList.lookup_insert_ne hkey] at hv
      exact h key v hv

theorem Sound.eventType {event : EventObject} (h : Sound event) {posts : Posts}
    (hpython : Interpreter objects posts) : Whole (eventType objects event) := by
  unfold Syswatch.eventType typeOr
  cases htype : event.lookup (py "event_type") with
  | none => exact whole_ascii (show ∀ c ∈ py "unknown", c < 0x80 by decide)
  | some v =>
    -- a type that is a string is a text of the event, and any other is spelled by `str`
    dsimp only
    have hvalue := (h _ v htype).2
    by_cases hstr : ∃ s, v = .str s
    · obtain ⟨s, rfl⟩ := hstr
      rw [hpython.strOfStr]
      exact hvalue
    · exact whole_of_no_high (hpython.strOfOther v fun s hs => hstr ⟨s, hs⟩)

/-- Each event that arrives is one that can be served. -/
theorem sound_arrived {posts : Posts} (hpython : Interpreter objects posts)
    (hservable : ∀ post ∈ posts, ∀ event ∈ accepted post.1 post.2, Servable event) :
    ∀ event ∈ arrived objects (calls posts), Sound event := by
  intro event hevent
  obtain ⟨post, hpost, given, hgiven, rfl⟩ := mem_arrived hevent
  obtain ⟨literal, hclock, hfinite⟩ := hpython.clock post hpost
  exact (sound_accepted hgiven (hservable post hpost given hgiven)).stamp hclock hfinite

/-! ## The responses -/

theorem mem_of_historyOf {store : EventStore PyValue} {type : Option PyStr} {limit : Int}
    {event : EventObject} (h : event ∈ store.historyOf objects type limit) : event ∈ store.history := by
  unfold EventStore.historyOf lastItems at h
  have hmem := List.mem_of_mem_drop h
  cases type with
  | none => exact hmem
  | some t =>
    dsimp only at hmem
    split_ifs at hmem
    · exact hmem
    · exact List.mem_of_mem_filter hmem

/-- What is written of a payload is read back, and is JSON just if each `float` is finite. -/
theorem jsonBody_loads (payload : List (PyStr × PyValue)) (hnodup : (payload.map Prod.fst).Nodup)
    (hkeys : ∀ item ∈ payload, ∀ c ∈ item.1, c < 0x80)
    (hvalues : ∀ item ∈ payload, Every (fun _ => True) Whole (canonical item.2)) :
    loads (jsonBody payload) = .value (.dict (payload.map fun item => (item.1, canonical item.2))) ∧
      (ValidJson (jsonBody payload) ↔
        ∀ item ∈ payload, Every IsFinite (fun _ => True) (canonical item.2)) := by
  have hevery : Every (fun _ => True) Whole (canonical (.dict payload)) := by
    rw [canonical_dict hnodup, Every, everyMember_iff, List.forall_mem_map]
    exact fun item hitem => ⟨whole_ascii (hkeys item hitem), hvalues item hitem⟩
  have hloads := loads_dumps hevery
  rw [canonical_dict hnodup, Every, everyMember_iff, List.forall_mem_map] at hloads
  simp only [true_and] at hloads
  exact hloads

theorem every_events {onFloat onText : Text → Prop} {events : List PyValue} {shown : List EventObject}
    (h : List.Forall₂ IsEvent events shown) : Every onFloat onText (canonical (.list events)) ↔
      ∀ event ∈ shown, ∀ key v, event.lookup key = some v →
        onText key ∧ Every onFloat onText (canonical v) := by
  rw [canonical, canonicalItems_eq, Every, everyItem_iff, List.forall_mem_map]
  induction h with
  | nil => simp
  | cons hevent hrest ih => rw [List.forall_mem_cons, List.forall_mem_cons, hevent.every, ih]

/-- **A response is decoded to its events**, and is JSON just if they are finite. -/
theorem HistoryBody.decoded {store : EventStore PyValue} {type : Option PyStr} {limit : Int} {body : Bytes}
    (hlegible : ∀ event ∈ store.historyOf objects type limit, Legible event)
    (h : HistoryBody objects store type limit body) :
    (∃ items, loads body = .value (.dict [(py "events", .list items)]) ∧
      List.Forall₂ Decodes items (store.historyOf objects type limit)) ∧
    (ValidJson body ↔ ∀ event ∈ store.historyOf objects type limit, Finite event) := by
  obtain ⟨events, hevents, rfl⟩ := h
  obtain ⟨hloads, hvalid⟩ := jsonBody_loads [(py "events", .list events)]
    (List.nodup_singleton _) (List.forall_mem_singleton.mpr (show ∀ c ∈ py "events", c < 0x80 by decide))
    (List.forall_mem_singleton.mpr ((every_events hevents).mpr hlegible))
  refine ⟨⟨events.map canonical, ?_, ?_⟩, ?_⟩
  · rw [hloads, List.map_singleton, canonical, canonicalItems_eq]
  · rw [List.forall₂_map_left_iff]
    exact hevents.imp fun _ _ hevent => hevent.decodes
  · rw [hvalid, List.forall_mem_singleton, every_events hevents]
    simp only [true_and, Finite]

theorem HistoryBody.served {store : EventStore PyValue} (hsound : ∀ event ∈ store.history, Sound event)
    {type : Option PyStr} {limit : Int} {body : Bytes} (h : HistoryBody objects store type limit body) :
    HistoryServed body (store.historyOf objects type limit) := by
  have hsounds : ∀ event ∈ store.historyOf objects type limit, Sound event := fun event hevent =>
    hsound event (mem_of_historyOf hevent)
  obtain ⟨hdecoded, hvalid⟩ := h.decoded fun event hevent => (hsounds event hevent).legible
  exact ⟨hvalid.mpr fun event hevent => (hsounds event hevent).finite, hdecoded⟩

section
variable {byType : PyDict EventObject} {shown : List (PyStr × PyValue × EventObject)}

theorem shown_nodup (hitems : ItemsOf byType (shown.map fun s => (s.1, s.2.2))) :
    ((shown.map fun s => (s.1, s.2.1)).map Prod.fst).Nodup := by
  have := hitems.nodup
  rwa [List.map_map] at this ⊢

theorem lookup_shown (hitems : ItemsOf byType (shown.map fun s => (s.1, s.2.2)))
    {s : PyStr × PyValue × EventObject} (hs : s ∈ shown) : byType.lookup s.1 = some s.2.2 :=
  hitems.mem_iff.mp (List.mem_map.mpr ⟨s, hs, rfl⟩)

theorem every_shown {onFloat onText : Text → Prop}
    (hitems : ItemsOf byType (shown.map fun s => (s.1, s.2.2))) (hshown : ∀ s ∈ shown, IsEvent s.2.1 s.2.2)
    (h : ∀ t event, byType.lookup t = some event → onText t ∧ ∀ key v, event.lookup key = some v →
      onText key ∧ Every onFloat onText (canonical v)) :
    Every onFloat onText (canonical (.dict (shown.map fun s => (s.1, s.2.1)))) := by
  rw [canonical_dict (shown_nodup hitems), Every, everyMember_iff, List.forall_mem_map, List.forall_mem_map]
  intro s hs
  obtain ⟨htext, hevent⟩ := h s.1 s.2.2 (lookup_shown hitems hs)
  exact ⟨htext, (hshown s hs).every.mpr hevent⟩

/-- Each type has its event, and no other type has one. -/
theorem decodes_shown (hitems : ItemsOf byType (shown.map fun s => (s.1, s.2.2)))
    (hshown : ∀ s ∈ shown, IsEvent s.2.1 s.2.2) (t : PyStr) :
    Option.Rel Decodes ((pyDict ((shown.map fun s => (s.1, s.2.1)).map fun item =>
      (item.1, canonical item.2))).lookup t) (byType.lookup t) := by
  have hnodup := shown_nodup hitems
  rw [lookup_canonical hnodup]
  cases hlookup : byType.lookup t with
  | none =>
    cases hread : (pyDict (shown.map fun s => (s.1, s.2.1))).lookup t with
    | none => exact .none
    | some v =>
      obtain ⟨s, hs, heq⟩ := List.mem_map.mp (mem_of_lookup_pyDict hread)
      cases heq
      rw [lookup_shown hitems hs] at hlookup
      cases hlookup
  | some event =>
    obtain ⟨s, hs, heq⟩ := List.mem_map.mp (hitems.mem_iff.mpr hlookup)
    cases heq
    rw [(lookup_pyDict_of_nodup hnodup).mpr (List.mem_map.mpr ⟨s, hs, rfl⟩)]
    exact .some (hshown s hs).decodes

end

theorem LatestBody.served {latest : Latest PyValue}
    (hsound : ∀ t event, latest.eventsByType.lookup t = some event → Whole t ∧ Sound event)
    {body : Bytes} (h : LatestBody latest body) : LatestServed body latest := by
  obtain ⟨shown, hitems, hshown, rfl⟩ := h
  have hevery := every_shown hitems hshown hsound
  have hnumbers {onFloat onText : Text → Prop} : ∀ item ∈ [(py "history_size", PyValue.int latest.historySize),
      (py "received_events", .int latest.receivedEvents)], Every onFloat onText (canonical item.2) := by
    simp [canonical, Every]
  obtain ⟨hloads, hvalid⟩ := jsonBody_loads [(py "events_by_type",
      .dict (shown.map fun s => (s.1, s.2.1))), (py "history_size", .int latest.historySize),
      (py "received_events", .int latest.receivedEvents)]
    (show [py "events_by_type", py "history_size", py "received_events"].Nodup by decide)
    (by simp only [List.forall_mem_cons]; decide)
    (List.forall_mem_cons.mpr ⟨hevery.mono (fun _ _ => trivial) fun _ hs => hs, hnumbers⟩)
  rw [List.map_cons, canonical_dict (shown_nodup hitems)] at hloads
  refine ⟨hvalid.mpr ?_, _, hloads, decodes_shown hitems hshown⟩
  exact List.forall_mem_cons.mpr ⟨hevery.mono (fun _ hl => hl) fun _ _ => trivial, hnumbers⟩

/-- **What is accepted is served** in any run whose objects all can be: the store
holds the events that were accepted, and each response is decoded to its events. -/
theorem accepted_served (objects : PyObjects PyValue) {m : Nat} (hm : 1 ≤ m) (start : ℚ) {posts : Posts}
    (hpath : ∀ post ∈ posts, post.2.path = py "/events") (hpython : Interpreter objects posts)
    (hservable : ∀ post ∈ posts, ∀ event ∈ accepted post.1 post.2, Servable event) :
    Holds objects m (arrived objects (calls posts)) (calls posts).length
      (afterPosts objects (.new m start) posts) ∧
    Serves objects (afterPosts objects (.new m start) posts) := by
  have hsound := sound_arrived hpython hservable
  rw [afterPosts_eq hpath]
  have h : Holds objects m (arrived objects (calls posts)) (calls posts).length _ :=
    holds_ingestAll hm start (calls posts)
  refine ⟨h, fun type limit body hbody => hbody.served fun event hevent => ?_,
    fun latest body hlatest hbody => hbody.served fun t event hevent => ?_⟩
  · rw [h.history] at hevent
    exact hsound event (List.mem_of_mem_drop hevent)
  · rw [hlatest, h.latest t] at hevent
    obtain ⟨harrived, htype⟩ := List.mem_filter.mp (List.mem_of_getLast? hevent)
    have hevent := hsound event harrived
    rw [← of_decide_eq_true htype]
    exact ⟨hevent.eventType hpython, hevent⟩

theorem sampleObjects_interpreter (posts : Posts) : Interpreter sampleObjects posts where
  strOfStr _ := rfl
  strOfOther v hv c hc := by
    cases v with
    | str s => exact absurd rfl (hv s)
    | _ => cases hc
  clock _ _ := ⟨_, rfl, false, 0, by decide +kernel⟩

theorem accepted_value {length : String} {body : Bytes} {parsed : PyValue}
    (hlen : pyInt sampleLimits (py length) = some (body.length : Int)) (hne : body ≠ [])
    (h : sampleLimits.loads body = .ok parsed) :
    accepted sampleHost (eventsRequest length body) = (payloadObjects parsed).map pyDict := by
  have hpos : ¬(body.length : Int) ≤ 0 := by
    have := List.length_pos_iff.mpr hne
    omega
  have hlength : pyInt sampleHost.limits ((eventsRequest length body).contentLength.getD (py "0")) =
      some (body.length : Int) := hlen
  have hread : (eventsRequest length body).rfile.take (body.length : Int).toNat = body := List.take_length
  have hloads : sampleHost.limits.loads body = .ok parsed := h
  rw [accepted, hlength]
  simp only [if_neg hpos, hread, hloads]

/-- The body of one item with a `float`. -/
theorem loads_float (literal : Text) : loads (jsonBody [(py "x", .float literal)]) =
    .value (.dict [(py "x", .float (floatText (readFloat literal)))]) :=
  (jsonBody_loads [(py "x", .float literal)] (List.nodup_singleton _)
    (List.forall_mem_singleton.mpr (show ∀ c ∈ py "x", c < 0x80 by decide))
    (List.forall_mem_singleton.mpr trivial)).1

/-- A request with that body. -/
def floatRequest (literal : String) : PostRequest :=
  eventsRequest "9" (ascii "\x7b\"x\":" ++ ascii literal ++ ascii "\x7d")

theorem accepted_float (literal : String) (hlen : literal.toList.length = 3)
    (hbody : ascii "\x7b\"x\":" ++ ascii literal ++ ascii "\x7d" = jsonBody [(py "x", .float (py literal))])
    (htext : floatText (readFloat (py literal)) = py literal) :
    accepted sampleHost (floatRequest literal) = [pyDict [(py "x", .float (py literal))]] := by
  have hloads := loads_float (py literal)
  have hlength : (ascii "\x7b\"x\":" ++ ascii literal ++ ascii "\x7d").length = 9 := by
    simp [ascii, hlen]
  rw [← hbody, htext] at hloads
  refine accepted_value ?_ (by simp [ascii]) (PyLimits.Limits.loads_eq_ok.mpr ⟨hloads, by decide, trivial, trivial⟩)
  rw [hlength]
  decide

theorem accepted_served_example :
    Serves sampleObjects (afterPosts sampleObjects (.new 100 0) [(sampleHost, floatRequest "1.5")]) := by
  have haccepted := accepted_float "1.5" rfl (by decide +kernel) (by decide +kernel)
  refine (accepted_served sampleObjects (by decide) 0 (List.forall_mem_singleton.mpr rfl)
    (sampleObjects_interpreter _) ?_).2
  rw [List.forall_mem_singleton, haccepted, List.forall_mem_singleton]
  intro key v hv
  obtain ⟨rfl, rfl⟩ := Prod.mk.injEq .. ▸ List.mem_singleton.mp (mem_of_lookup_pyDict hv)
  exact ⟨List.isChain_singleton _, false, 3 / 2, by decide +kernel⟩

/-- A `NaN` is accepted, and is written as one. -/
theorem nan_unserved :
    (doPost sampleObjects sampleHost (.new 100 0) (floatRequest "NaN")).responses.map Response.status =
        [.ok] ∧
      ¬Serves sampleObjects (afterPosts sampleObjects (.new 100 0) [(sampleHost, floatRequest "NaN")]) := by
  have haccepted := accepted_float "NaN" rfl (by decide +kernel) (by decide +kernel)
  have hpath : (floatRequest "NaN").path = py "/events" := rfl
  have hpost := (doPost_cases sampleObjects sampleHost (.new 100 0) hpath).resolve_right fun h => by
    rw [haccepted] at h
    cases h.1
  rw [haccepted] at hpost
  refine ⟨by rw [hpost.2]; rfl, fun h => ?_⟩
  rw [afterPosts, List.foldl_cons, List.foldl_nil, hpost.2] at h
  have hstamp : stamp sampleObjects 0 (pyDict [(py "x", .float (py "NaN"))]) =
      pyDict [(py "x", .float (py "NaN")), (py "_ingested_at", .float (py "0.0"))] := rfl
  have hbody : HistoryBody sampleObjects ((EventStore.new 100 0).ingest sampleObjects 0
      [pyDict [(py "x", .float (py "NaN"))]]) none 200 _ :=
    ⟨_, .cons ⟨_, List.Perm.refl _, rfl⟩ .nil, rfl⟩
  have hvalid := (h.history none 200 _ hbody).valid
  have hlegible : Legible (stamp sampleObjects 0 (pyDict [(py "x", .float (py "NaN"))])) := by
    intro key v hv
    rw [hstamp] at hv
    have hmem := mem_of_lookup_pyDict hv
    simp only [List.mem_cons, List.mem_nil_iff, or_false, Prod.mk.injEq] at hmem
    rcases hmem with ⟨rfl, rfl⟩ | ⟨rfl, rfl⟩
    · exact ⟨whole_ascii (by decide), trivial⟩
    · exact ⟨whole_ascii (by decide), trivial⟩
  have hhistory : ((EventStore.new 100 0).ingest sampleObjects 0
      [pyDict [(py "x", .float (py "NaN"))]]).historyOf sampleObjects none 200 =
        [stamp sampleObjects 0 (pyDict [(py "x", .float (py "NaN"))])] := rfl
  have hdecoded := hbody.decoded (by rwa [hhistory, List.forall_mem_singleton])
  rw [hhistory, List.forall_mem_singleton] at hdecoded
  have hfinite := hdecoded.2.mp hvalid
  obtain ⟨negative, magnitude, hread⟩ := hfinite (py "x") (.float (py "NaN")) rfl
  cases hread

end Syswatch.ServedEvents
