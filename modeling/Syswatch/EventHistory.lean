import Syswatch.EventStore

/-! # What the event store holds after any calls

Each event is recorded in four places. One invariant ties them to the list of
all events that have arrived; one event keeps it, and so does one call. -/

namespace Syswatch.EventHistory
open Lib.BoundedFifo

variable {V : Type} (objects : PyObjects V)

/-- The calls of `ingest`, each with its time and its events. -/
abbrev Calls (V : Type) := List (ℚ × List (EventDict V))

def ingestAll (store : EventStore V) (calls : Calls V) : EventStore V :=
  calls.foldl (fun store call => store.ingest objects call.1 call.2) store

/-- All events of the calls in order, as they are stored. -/
def arrived (calls : Calls V) : List (EventDict V) :=
  calls.flatMap fun call => call.2.map (stamp objects call.1)

/-- The invariant. -/
structure Holds (m : Nat) (all : List (EventDict V)) (batches : Nat) (s : EventStore V) : Prop where
  maxEvents : s.maxEvents = m
  history : s.history = all.rtake m
  latest : ∀ t, s.latestByType.lookup t = (all.filter fun e => eventType objects e = t).getLast?
  batches : s.receivedBatches = batches
  events : s.receivedEvents = all.length

variable {objects} {m : Nat}

theorem rtake_length_le {α : Type} (l : List α) (m : Nat) : (l.rtake m).length ≤ m := by
  rw [List.rtake, List.length_drop]
  omega

/-- A deque that is no longer than its bound is the bounded FIFO. -/
theorem dequeAppend_eq_push {α : Type} (hm : 0 < m) {l : List α} (hl : l.length ≤ m) (x : α) :
    dequeAppend m l x = push m l x := by
  unfold dequeAppend
  rw [List.length_append, List.length_singleton]
  split
  · have hne : l ≠ [] := by
      rintro rfl
      simp at *
      omega
    rw [push_of_full x (by omega), List.tail_append_of_ne_nil hne]
  · rw [push_of_lt x (by omega)]

theorem holds_new (now : ℚ) : Holds objects m [] 0 (.new m now) where
  maxEvents := rfl
  history := by simp [EventStore.new]
  latest t := AList.lookup_empty t
  batches := rfl
  events := rfl

theorem Holds.record (hm : 0 < m) {all : List (EventDict V)} {batches : Nat} {s : EventStore V}
    (h : Holds objects m all batches s) (e : EventDict V) :
    Holds objects m (all ++ [e]) batches (s.record objects e) where
  maxEvents := h.maxEvents
  history := by
    have hlen : s.history.length ≤ m := by
      rw [h.history]
      exact rtake_length_le all m
    simp only [EventStore.record]
    rw [h.maxEvents, dequeAppend_eq_push hm hlen, h.history, push_rtake hm]
  latest t := by
    simp only [EventStore.record, List.filter_append, List.filter_singleton]
    by_cases ht : eventType objects e = t
    · subst ht
      rw [AList.lookup_insert]
      simp
    · rw [AList.lookup_insert_ne (Ne.symm ht), h.latest t]
      simp [ht]
  batches := h.batches
  events := by
    simp only [EventStore.record]
    rw [h.events, List.length_append, List.length_singleton]

theorem Holds.recordAll (hm : 0 < m) (events : List (EventDict V)) {batches : Nat} (now : ℚ) :
    ∀ {all : List (EventDict V)} {s : EventStore V}, Holds objects m all batches s →
      Holds objects m (all ++ events.map (stamp objects now)) batches
        (events.foldl (fun s e => s.record objects (stamp objects now e)) s) := by
  induction events with
  | nil =>
    intro all s h
    simpa using h
  | cons e events ih =>
    intro all s h
    have := ih (h.record hm (stamp objects now e))
    simpa using this

theorem Holds.ingest (hm : 0 < m) {all : List (EventDict V)} {batches : Nat} {s : EventStore V}
    (h : Holds objects m all batches s) (now : ℚ) (events : List (EventDict V)) :
    Holds objects m (all ++ events.map (stamp objects now)) (batches + 1)
      (s.ingest objects now events) := by
  have hcount : Holds objects m all (batches + 1)
      { s with receivedBatches := s.receivedBatches + 1, lastIngestedAt := some now } :=
    ⟨h.maxEvents, h.history, h.latest, congrArg (· + 1) h.batches, h.events⟩
  exact hcount.recordAll hm events now

/-- **The invariant after any calls.** -/
theorem holds_ingestAll (hm : 0 < m) (now : ℚ) (calls : Calls V) :
    Holds objects m (arrived objects calls) calls.length (ingestAll objects (.new m now) calls) := by
  induction calls using List.reverseRecOn with
  | nil => exact holds_new now
  | append_singleton calls call ih =>
    have hstep := ih.ingest hm call.1 call.2
    simp only [ingestAll, arrived, List.foldl_append, List.flatMap_append, List.length_append] at hstep ⊢
    simpa using hstep

/-! ## What the store answers -/

/-- The time of arrival is the only key that may be new. -/
theorem lookup_stamp (now : ℚ) (e : EventDict V) {key : PyStr} (h : key ≠ py "_ingested_at") :
    (stamp objects now e).lookup key = e.lookup key := by
  unfold stamp
  cases e.lookup (py "_ingested_at") with
  | some v => rfl
  | none => exact AList.lookup_insert_ne h

theorem eventType_stamp (now : ℚ) (e : EventDict V) :
    eventType objects (stamp objects now e) = eventType objects e := by
  rw [eventType, eventType, typeOr, typeOr, lookup_stamp now e (by decide)]

theorem mem_types_arrived (calls : Calls V) (t : PyStr) :
    (∃ e ∈ arrived objects calls, eventType objects e = t) ↔
      ∃ call ∈ calls, ∃ e ∈ call.2, eventType objects e = t := by
  constructor
  · rintro ⟨e, he, ht⟩
    obtain ⟨call, hcall, he⟩ := List.mem_flatMap.mp he
    obtain ⟨e', he', rfl⟩ := List.mem_map.mp he
    exact ⟨call, hcall, e', he', by rw [← ht, eventType_stamp]⟩
  · rintro ⟨call, hcall, e, he, ht⟩
    exact ⟨stamp objects call.1 e, List.mem_flatMap.mpr ⟨call, hcall, List.mem_map_of_mem he⟩,
      by rw [eventType_stamp, ht]⟩

/-- The types seen are sorted, each once, and are the types of all events. -/
theorem Holds.seen {all : List (EventDict V)} {batches : Nat} {s : EventStore V}
    (h : Holds objects m all batches s) (now ageNow : ℚ) :
    (s.health now ageNow).seenEventTypes.Pairwise (· < ·) ∧
      ∀ t, t ∈ (s.health now ageNow).seenEventTypes ↔ ∃ e ∈ all, eventType objects e = t := by
  simp only [EventStore.health]
  constructor
  · have hsorted := @List.pairwise_mergeSort _ (fun a b : PyStr => decide (a ≤ b))
      (fun a b c hab hbc => decide_eq_true ((of_decide_eq_true hab).trans (of_decide_eq_true hbc)))
      (fun a b => by simpa using le_total a b) s.latestByType.keys
    have hnodup := (List.mergeSort_perm s.latestByType.keys fun a b => decide (a ≤ b)).nodup_iff.mpr
      s.latestByType.keys_nodup
    refine (hsorted.and hnodup).imp ?_
    rintro a b ⟨hle, hne⟩
    exact lt_of_le_of_ne (of_decide_eq_true hle) hne
  · intro t
    rw [List.mem_mergeSort, ← AList.mem_keys, ← AList.lookup_isSome, h.latest t,
      Option.isSome_iff_ne_none, Ne, List.getLast?_eq_none_iff, List.filter_eq_nil_iff]
    simp

theorem rtake_min_length {α : Type} (l : List α) (n : Nat) : l.rtake (min n l.length) = l.rtake n := by
  unfold List.rtake
  congr 1
  omega

theorem lastItems_eq_rtake {α : Type} (l : List α) {limit : Int} (h : 0 ≤ limit) :
    lastItems l limit = l.rtake limit.toNat := by
  unfold lastItems List.rtake
  congr 1
  omega

theorem Holds.historyOf {all : List (EventDict V)} {batches : Nat} {s : EventStore V}
    (h : Holds objects m all batches s) (limit : Int) :
    s.historyOf objects none limit =
      all.rtake (min (max 1 (min limit 2000)).toNat s.history.length) := by
  have hlen : s.history.length = min m all.length := by
    rw [h.history, List.rtake, List.length_drop]
    omega
  rw [EventStore.historyOf, lastItems_eq_rtake _ (by omega), h.history, rtake_rtake, ← h.history, hlen,
    ← min_assoc, rtake_min_length]

/-- **The event store after any calls.** The counters count, the history is the
last events, each type has its last event, and the answers are read off these. -/
theorem event_store_answers (objects : PyObjects V) {m : Nat} (hm : 1 ≤ m) (start : ℚ)
    (calls : Calls V) :
    (ingestAll objects (.new m start) calls).receivedBatches = calls.length ∧
    (ingestAll objects (.new m start) calls).receivedEvents =
      (calls.map fun call => call.2.length).sum ∧
    (ingestAll objects (.new m start) calls).history =
      (arrived objects calls).rtake (min m (arrived objects calls).length) ∧
    (∀ t, (ingestAll objects (.new m start) calls).latest.eventsByType.lookup t =
      ((arrived objects calls).filter fun e => eventType objects e = t).getLast?) ∧
    (∀ now ageNow,
      ((ingestAll objects (.new m start) calls).health now ageNow).seenEventTypes.Pairwise (· < ·) ∧
      ∀ t, t ∈ ((ingestAll objects (.new m start) calls).health now ageNow).seenEventTypes ↔
        ∃ call ∈ calls, ∃ e ∈ call.2, eventType objects e = t) ∧
    ∀ limit : Int, (ingestAll objects (.new m start) calls).historyOf objects none limit =
      (arrived objects calls).rtake (min (max 1 (min limit 2000)).toNat
        (ingestAll objects (.new m start) calls).history.length) := by
  have h : Holds objects m (arrived objects calls) calls.length _ := holds_ingestAll hm start calls
  refine ⟨h.batches, ?_, ?_, h.latest, fun now ageNow => ⟨(h.seen now ageNow).1, fun t => ?_⟩,
    h.historyOf⟩
  · rw [h.events, arrived, List.length_flatMap]
    simp
  · rw [h.history, rtake_min_length]
  · rw [(h.seen now ageNow).2 t, mem_types_arrived]

/-- Objects that are strings. -/
def strings : PyObjects PyStr := ⟨fun _ => py "0.0", id⟩

def sampleEvent (type : String) : EventDict PyStr := AList.insert (py "event_type") (py type) ∅

/-- The only event of its type leaves a history of two. -/
def sampleCalls : Calls PyStr :=
  [(1, [sampleEvent "system.metrics.cpu"]), (2, []), (3, [sampleEvent "system.metrics.disk", ∅])]

theorem event_store_answers_example :
    (ingestAll strings (.new 2 0) sampleCalls).latest.eventsByType.lookup (py "system.metrics.cpu") =
        some (stamp strings 1 (sampleEvent "system.metrics.cpu")) ∧
      (ingestAll strings (.new 2 0) sampleCalls).historyOf strings none (-5) = [stamp strings 3 ∅] := by
  obtain ⟨-, -, -, hlatest, -, hlimit⟩ := event_store_answers strings (by decide : 1 ≤ 2) 0 sampleCalls
  exact ⟨(hlatest _).trans rfl, (hlimit (-5)).trans rfl⟩

end Syswatch.EventHistory
