import Syswatch.EventHistory
import Syswatch.Lib.Machine

/-! # `GET /api/latest` while events come in

`latest()` copies two numbers under the lock and hands out the dictionary of the
store itself, which `json.dumps` reads later, without the lock. Each of the
three is one step of the server; steps of other requests may come between. -/

namespace Syswatch.LatestSnapshot
open Lib.Machine EventHistory

/-- How far a request for `/api/latest` is. `returned` holds what `latest()`
copied; the dictionary in its result is the one of the store. -/
inductive Request (V : Type) where
  | idle
  | received
  | returned (historySize receivedEvents : Nat)
  | answered (response : Latest V)

/-- The store that the handlers share, and the requests by number. -/
structure Server (V : Type) where
  store : EventStore V
  requests : Nat → Request V

def Server.start {V : Type} (store : EventStore V) : Server V := ⟨store, fun _ => .idle⟩

/-- The steps of the handlers. A `POST /events` is one step, as `ingest` holds the lock. -/
inductive Step (V : Type) where
  | ingest (now : ℚ) (events : List (EventDict V))
  | receive (r : Nat)
  | latest (r : Nat)
  | dumps (r : Nat)

variable {V : Type} (objects : PyObjects V)

def Server.move (s : Server V) (r : Nat) (q : Request V) : Server V :=
  { s with requests := Function.update s.requests r q }

def Server.step (s : Server V) : Step V → Option (Server V)
  | .ingest now events => some { s with store := s.store.ingest objects now events }
  | .receive r =>
    match s.requests r with
    | .idle => some (s.move r .received)
    | _ => none
  | .latest r =>
    match s.requests r with
    | .received =>
      let result := s.store.latest
      some (s.move r (.returned result.historySize result.receivedEvents))
    | _ => none
  | .dumps r =>
    match s.requests r with
    | .returned historySize receivedEvents =>
      some (s.move r (.answered ⟨s.store.latestByType, historySize, receivedEvents⟩))
    | _ => none

/-- The calls of `ingest` among the steps. -/
def ingested (steps : List (Step V)) : Calls V :=
  steps.filterMap fun
    | .ingest now events => some (now, events)
    | _ => none

/-- The store after the steps. -/
def storeAfter (store : EventStore V) (steps : List (Step V)) : EventStore V :=
  ingestAll objects store (ingested steps)

/-- The response shows that store. -/
structure Shows (response : Latest V) (store : EventStore V) : Prop where
  events : ∀ t, response.eventsByType.lookup t = store.latestByType.lookup t
  size : response.historySize = store.history.length
  received : response.receivedEvents = store.receivedEvents

/-- A request in a run, step by step: what came before it, between its receipt
and `latest()`, between that and `json.dumps`, and after it. -/
structure Course (V : Type) where
  before : List (Step V)
  waiting : List (Step V)
  serving : List (Step V)
  after : List (Step V)

def Course.run (c : Course V) (r : Nat) : List (Step V) :=
  c.before ++ .receive r :: (c.waiting ++ .latest r :: (c.serving ++ .dumps r :: c.after))

/-- The steps up to `latest()`. -/
def Course.taken (c : Course V) (r : Nat) : List (Step V) := c.before ++ .receive r :: c.waiting

/-- The response shows a store there was while the request was served. -/
def Consistent (store : EventStore V) (c : Course V) (r : Nat) (response : Latest V) : Prop :=
  ∃ steps, steps <+: c.waiting ++ .latest r :: c.serving ∧
    Shows response (storeAfter objects store (c.before ++ .receive r :: steps))

/-- What `latest()` found for a type is still the last event of that type when
`json.dumps` runs: none was ingested in between, or one equal to it was the last. -/
def Undisturbed (store : EventStore V) (c : Course V) (r : Nat) : Prop :=
  ∀ t, ∀ e ∈ ((arrived objects (ingested c.serving)).filter fun e => eventType objects e = t).getLast?,
    (storeAfter objects store (c.taken r)).latestByType.lookup t = some e

variable {objects}

/-! ## What the calls leave of any store -/

theorem ingest_adds (objects : PyObjects V) (s : EventStore V) (now : ℚ) (events : List (EventDict V)) :
    (s.ingest objects now events).receivedEvents = s.receivedEvents + events.length ∧
      ∀ t, (s.ingest objects now events).latestByType.lookup t =
        (((events.map (stamp objects now)).filter fun e => eventType objects e = t).getLast?).or
          (s.latestByType.lookup t) := by
  suffices h : ∀ (s : EventStore V),
      let s' := events.foldl (fun s e => s.record objects (stamp objects now e)) s
      s'.receivedEvents = s.receivedEvents + events.length ∧
        ∀ t, s'.latestByType.lookup t =
          (((events.map (stamp objects now)).filter fun e => eventType objects e = t).getLast?).or
            (s.latestByType.lookup t) from h _
  induction events with
  | nil => exact fun s => ⟨rfl, fun t => rfl⟩
  | cons e events ih =>
    intro s
    obtain ⟨hcount, hlatest⟩ := ih (s.record objects (stamp objects now e))
    refine ⟨by rw [List.foldl_cons, hcount, List.length_cons]; simp only [EventStore.record]; omega,
      fun t => ?_⟩
    rw [List.foldl_cons, hlatest, List.map_cons, List.filter_cons]
    by_cases ht : eventType objects (stamp objects now e) = t
    · have hrecord : (s.record objects (stamp objects now e)).latestByType.lookup t =
          some (stamp objects now e) := by
        subst ht
        exact AList.lookup_insert _
      rw [hrecord, if_pos (by simpa using ht), List.getLast?_cons]
      cases ((events.map (stamp objects now)).filter fun e => eventType objects e = t).getLast? <;> rfl
    · have hrecord : (s.record objects (stamp objects now e)).latestByType.lookup t =
          s.latestByType.lookup t := AList.lookup_insert_ne (Ne.symm ht)
      rw [hrecord, if_neg (by simpa using ht)]

theorem ingestAll_adds (objects : PyObjects V) (calls : Calls V) (s : EventStore V) :
    (ingestAll objects s calls).receivedEvents = s.receivedEvents + (arrived objects calls).length ∧
      ∀ t, (ingestAll objects s calls).latestByType.lookup t =
        (((arrived objects calls).filter fun e => eventType objects e = t).getLast?).or
          (s.latestByType.lookup t) := by
  induction calls generalizing s with
  | nil => exact ⟨rfl, fun t => rfl⟩
  | cons call calls ih =>
    obtain ⟨hcount, hlatest⟩ := ih (s.ingest objects call.1 call.2)
    obtain ⟨hcount', hlatest'⟩ := ingest_adds objects s call.1 call.2
    have hsplit : arrived objects (call :: calls) =
        call.2.map (stamp objects call.1) ++ arrived objects calls := List.flatMap_cons
    rw [ingestAll, List.foldl_cons, ← ingestAll, hsplit]
    refine ⟨by rw [hcount, hcount', List.length_append, List.length_map, Nat.add_assoc], fun t => ?_⟩
    rw [hlatest, hlatest', List.filter_append, List.getLast?_append, Option.or_assoc]

theorem storeAfter_append (store : EventStore V) (steps more : List (Step V)) :
    storeAfter objects store (steps ++ more) =
      ingestAll objects (storeAfter objects store steps) (ingested more) := by
  rw [storeAfter, ingested, List.filterMap_append, ingestAll, List.foldl_append]
  rfl

theorem storeAfter_snoc (store : EventStore V) (steps : List (Step V)) (a : Step V) :
    storeAfter objects store (steps ++ [a]) =
      ingestAll objects (storeAfter objects store steps) (ingested [a]) :=
  storeAfter_append store steps [a]

/-- Stores of one run that count the same events show the same latest ones. -/
theorem latest_of_count {store : EventStore V} {steps more : List (Step V)}
    (h : (storeAfter objects store steps).receivedEvents =
      (storeAfter objects store (steps ++ more)).receivedEvents) (t : PyStr) :
    (storeAfter objects store (steps ++ more)).latestByType.lookup t =
      (storeAfter objects store steps).latestByType.lookup t := by
  rw [storeAfter_append] at h ⊢
  obtain ⟨hcount, hlatest⟩ := ingestAll_adds objects (ingested more)
    (storeAfter objects store steps)
  have hnone : arrived objects (ingested more) = [] := by
    rw [← List.length_eq_zero_iff]
    omega
  rw [hlatest, hnone]
  rfl

/-! ## The requests of a run -/

section Run
variable (objects)

/-- Where a request stands, told from the steps. -/
def Stands (store : EventStore V) (steps : List (Step V)) (r : Nat) : Request V → Prop
  | .idle => True
  | .received => ∃ before waiting, steps = before ++ .receive r :: waiting
  | .returned size received => ∃ before waiting serving,
      steps = before ++ .receive r :: (waiting ++ .latest r :: serving) ∧
      size = (storeAfter objects store (before ++ .receive r :: waiting)).history.length ∧
      received = (storeAfter objects store (before ++ .receive r :: waiting)).receivedEvents
  | .answered response => ∃ c : Course V, steps = c.run r ∧
      response.eventsByType =
        (storeAfter objects store (c.taken r ++ .latest r :: c.serving)).latestByType ∧
      response.historySize = (storeAfter objects store (c.taken r)).history.length ∧
      response.receivedEvents = (storeAfter objects store (c.taken r)).receivedEvents

variable {objects}

/-- A step of something else leaves a request where it is. -/
theorem Stands.later {store : EventStore V} {steps : List (Step V)} {r : Nat} {q : Request V}
    (h : Stands objects store steps r q) (a : Step V) :
    Stands objects store (steps ++ [a]) r q := by
  cases q with
  | idle => trivial
  | received =>
    obtain ⟨before, waiting, rfl⟩ := h
    exact ⟨before, waiting ++ [a], by simp⟩
  | returned size received =>
    obtain ⟨before, waiting, serving, rfl, hsize, hreceived⟩ := h
    exact ⟨before, waiting, serving ++ [a], by simp, hsize, hreceived⟩
  | answered response =>
    obtain ⟨c, rfl, hshown⟩ := h
    exact ⟨{ c with after := c.after ++ [a] }, by simp [Course.run], hshown⟩

variable (objects) in
/-- The invariant: the store is that of the calls, and every request stands
where the steps say. -/
structure Follows (first : EventStore V) (steps : List (Step V)) (s : Server V) : Prop where
  store : s.store = storeAfter objects first steps
  stands : ∀ r, Stands objects first steps r (s.requests r)

/-- The step of a request moves this one. -/
theorem Follows.moved {store : EventStore V} {steps : List (Step V)} {s : Server V}
    (h : Follows objects store steps s) {a : Step V} (ha : ingested [a] = []) {r : Nat}
    {q : Request V} (hq : Stands objects store (steps ++ [a]) r q) :
    Follows objects store (steps ++ [a]) (s.move r q) where
  store := by
    rw [storeAfter_snoc, ha]
    exact h.store
  stands r' := by
    by_cases hr : r' = r
    · subst hr
      simpa [Server.move] using hq
    · simpa [Server.move, hr] using (h.stands r').later a

theorem Follows.step {store : EventStore V} {steps : List (Step V)} {s s' : Server V}
    (h : Follows objects store steps s) {a : Step V}
    (hs : s.step objects a = some s') : Follows objects store (steps ++ [a]) s' := by
  cases a with
  | ingest now events =>
    cases hs
    refine ⟨?_, fun r => (h.stands r).later _⟩
    rw [storeAfter_snoc, ← h.store]
    rfl
  | receive r =>
    simp only [Server.step] at hs
    split at hs
    · cases hs
      exact h.moved rfl ⟨steps, [], rfl⟩
    · cases hs
  | latest r =>
    simp only [Server.step] at hs
    split at hs
    · rename_i hq
      cases hs
      have hstands := h.stands r
      rw [hq] at hstands
      obtain ⟨before, waiting, hsteps⟩ := hstands
      refine h.moved rfl ⟨before, waiting, [], by rw [hsteps]; simp, ?_, ?_⟩
      · rw [← hsteps, ← h.store]
        rfl
      · rw [← hsteps, ← h.store]
        rfl
    · cases hs
  | dumps r =>
    simp only [Server.step] at hs
    split at hs
    · rename_i size received hq
      cases hs
      have hstands := h.stands r
      rw [hq] at hstands
      obtain ⟨before, waiting, serving, hsteps, hsize, hreceived⟩ := hstands
      refine h.moved rfl ⟨⟨before, waiting, serving, []⟩, by rw [hsteps]; simp [Course.run], ?_, hsize,
        hreceived⟩
      have hall : (Course.taken ⟨before, waiting, serving, []⟩ r ++ .latest r :: serving) = steps := by
        rw [hsteps]
        simp [Course.taken]
      rw [hall, ← h.store]
    · cases hs

/-- **The invariant in every run.** -/
theorem follows_run {store : EventStore V} {steps : List (Step V)} {s : Server V}
    (h : run (Server.step objects) (.start store) steps = some s) :
    Follows objects store steps s := by
  have hstart : Follows objects store [] (.start store) := ⟨rfl, fun _ => trivial⟩
  exact run_invariant hstart (fun _ _ _ _ _ hf hs => hf.step hs) h

end Run

/-! ## The response -/

/-- The latest events of the response are those `latest()` saw, exactly when
nothing else was ingested in between. -/
theorem undisturbed_iff (store : EventStore V) (c : Course V) (r : Nat) :
    Undisturbed objects store c r ↔
      ∀ t, (storeAfter objects store (c.taken r ++ .latest r :: c.serving)).latestByType.lookup t =
        (storeAfter objects store (c.taken r)).latestByType.lookup t := by
  have hserving : ingested (.latest r :: c.serving) = ingested c.serving := rfl
  simp only [Undisturbed, storeAfter_append, hserving, (ingestAll_adds objects _ _).2]
  refine forall_congr' fun t => ?_
  cases ((arrived objects (ingested c.serving)).filter fun e => eventType objects e = t).getLast? with
  | none => simp
  | some e => simp [eq_comm]

/-- **When a response is a snapshot.** In every run, an answered request went
its course; its response shows one state of the store exactly when no other
event came last of its type between `latest()` and `json.dumps`. -/
theorem response_consistent_iff (objects : PyObjects V) (store : EventStore V)
    {steps : List (Step V)} {s : Server V}
    (hrun : run (Server.step objects) (.start store) steps = some s) {r : Nat} {response : Latest V}
    (hanswered : s.requests r = .answered response) :
    ∃ c : Course V, steps = c.run r ∧
      (Consistent objects store c r response ↔ Undisturbed objects store c r) := by
  have hstands := (follows_run hrun).stands r
  rw [hanswered] at hstands
  obtain ⟨c, hsteps, hevents, hsize, hreceived⟩ := hstands
  refine ⟨c, hsteps, ?_⟩
  rw [undisturbed_iff, ← hevents]
  constructor
  · rintro ⟨served, hserved, hshows⟩ t
    have htaken : c.waiting <+: c.waiting ++ .latest r :: c.serving := List.prefix_append _ _
    have hcount := hreceived.symm.trans hshows.received
    rw [hshows.events]
    -- the state shown and the one of `latest()` are states of one run
    rcases List.prefix_or_prefix_of_prefix hserved htaken with ⟨more, hmore⟩ | ⟨more, rfl⟩
    · rw [Course.taken, ← hmore] at hcount ⊢
      have hjoin : c.before ++ .receive r :: (served ++ more) =
          (c.before ++ .receive r :: served) ++ more := by simp
      rw [hjoin] at hcount ⊢
      exact (latest_of_count hcount.symm t).symm
    · have hjoin : c.before ++ .receive r :: (c.waiting ++ more) = c.taken r ++ more := by
        simp [Course.taken]
      rw [hjoin] at hcount ⊢
      exact latest_of_count hcount t
  · exact fun h => ⟨c.waiting, List.prefix_append _ _, h, hsize, hreceived⟩

/-- Events are stored before the request, while it waits and while it is served. -/
def busyCourse : Course PyStr where
  before := [.ingest 1 [sampleEvent "system.metrics.cpu", sampleEvent "system.metrics.disk"]]
  waiting := [.ingest 2 [∅]]
  serving := [.ingest 3 [sampleEvent "system.metrics.disk"]]
  after := [.ingest 4 [sampleEvent "system.metrics.memory"]]

/-- It shows the fourth event, and counts three. -/
def busyResponse : Latest PyStr where
  eventsByType := (ingestAll strings (.new 5000 0)
    [(1, [sampleEvent "system.metrics.cpu", sampleEvent "system.metrics.disk"]), (2, [∅]),
      (3, [sampleEvent "system.metrics.disk"])]).latestByType
  historySize := 3
  receivedEvents := 3

theorem response_consistent_example : ∃ c : Course PyStr, busyCourse.run 7 = c.run 7 ∧
    (Consistent strings (.new 5000 0) c 7 busyResponse ↔ Undisturbed strings (.new 5000 0) c 7) :=
  response_consistent_iff strings (.new 5000 0) (s := ⟨_, _⟩) rfl rfl

/-- An event comes in between. -/
def tornCourse : Course PyStr := ⟨[], [], [.ingest 1 [∅]], []⟩

/-- The response shows the event and does not count it. -/
theorem response_torn : ¬∀ (c : Course PyStr) (r : Nat) (s : Server PyStr) (response : Latest PyStr),
    run (Server.step strings) (.start (.new 5000 0)) (c.run r) = some s →
      s.requests r = .answered response → Consistent strings (.new 5000 0) c r response := by
  intro h
  obtain ⟨served, hserved, hshows⟩ := h tornCourse 7 _ ⟨_, 0, 0⟩ rfl rfl
  have hsteps : served <+: [.latest 7, .ingest 1 [∅]] := hserved
  have hevent := hshows.events (py "unknown")
  have hcount := hshows.received
  rcases List.prefix_cons_iff.mp hsteps with rfl | ⟨served, rfl, hlater⟩
  · cases hevent
  rcases List.prefix_cons_iff.mp hlater with rfl | ⟨served, rfl, hlast⟩
  · cases hevent
  · rw [List.prefix_nil.mp hlast] at hcount
    cases hcount

end Syswatch.LatestSnapshot
