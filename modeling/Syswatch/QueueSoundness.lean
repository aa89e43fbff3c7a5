import Syswatch.Queue
import Syswatch.Lib.Machine

/-! # The ring buffer is a bounded FIFO

The abstract queue is a list of events with the number of events dropped so
far. Calls on the ring buffer and on the list answer alike, from an empty
queue on, whatever the calls and whatever `malloc` left in the slots. -/

namespace Syswatch.QueueSoundness
open Lib.CText Lib.BoundedFifo Lib.Machine

/-- One event, as the abstract queue holds it. -/
structure QueuedEvent where
  payload : Bytes
  enqueueTime : Timespec

/-- The event in a slot: the first `jsonLen` bytes of the array. -/
def eventOf (e : EventQueueEntry) : QueuedEvent := ⟨e.jsonData.bytes.take e.jsonLen, e.enqueueTime⟩

/-- The array holds a NUL behind the event. -/
def Terminated (e : EventQueueEntry) : Prop :=
  e.jsonLen < MAX_EVENT_SIZE ∧ e.jsonData.bytes[e.jsonLen]? = some 0

inductive QueueCall where
  | enqueue (jsonData : Option (Nat → UInt8)) (len : Nat) (now : Option Timespec)
  | dequeueBatch (maxCount : Int)

/-- What a call returns, over the kind of entry it hands out. -/
inductive QueueReply (ε : Type) where
  | enqueued (ret : Int)
  | dequeued (ret : Int) (out : List ε)

def execCall (q : EventQueue) : QueueCall → QueueReply EventQueueEntry × EventQueue
  | .enqueue jsonData len now =>
    let r := queueEnqueue q jsonData len now
    (.enqueued r.1, r.2)
  | .dequeueBatch maxCount =>
    let r := queueDequeueBatch q maxCount
    (.dequeued r.1 r.2.1, r.2.2)

/-- The abstract queue: a list of at most `MAX_QUEUE_DEPTH` events. -/
structure Fifo where
  events : List QueuedEvent
  dropped : Nat

/-- The purpose of the queue. An event of 1 to `MAX_EVENT_SIZE - 1` bytes is
appended, after the oldest one is dropped from a full list; every other event
is refused. A batch is the first `maxCount` events. -/
def specCall (f : Fifo) : QueueCall → QueueReply QueuedEvent × Fifo
  | .enqueue (some data) len now =>
    if 0 < len ∧ len < MAX_EVENT_SIZE then
      (.enqueued 0, {
        events := push MAX_QUEUE_DEPTH f.events ⟨(List.range len).map data, now.getD ⟨0, 0⟩⟩
        dropped := f.dropped + (evicted MAX_QUEUE_DEPTH f.events).length })
    else (.enqueued (-1), f)
  | .enqueue none _ _ => (.enqueued (-1), f)
  | .dequeueBatch maxCount =>
    if 0 < maxCount then
      (.dequeued 0 (f.events.take maxCount.toNat), { f with events := f.events.drop maxCount.toNat })
    else (.dequeued (-1) [], f)

/-- Answers agree when the codes do and the entries handed out are terminated
copies of the abstract events. -/
inductive Agrees : QueueReply EventQueueEntry → QueueReply QueuedEvent → Prop
  | enqueued (ret : Int) : Agrees (.enqueued ret) (.enqueued ret)
  | dequeued (ret : Int) {out : List EventQueueEntry} (h : ∀ e ∈ out, Terminated e) :
      Agrees (.dequeued ret out) (.dequeued ret (out.map eventOf))

/-- The ring buffer holds the abstract queue. -/
structure Refines (q : EventQueue) (f : Fifo) : Prop where
  inRange : q.InRange
  events : q.contents.map eventOf = f.events
  terminated : ∀ e ∈ q.contents, Terminated e
  dropped : q.droppedCount = UInt64.ofNat f.dropped

/-! ## The entry an accepted call writes -/

theorem fillEntry_bytes (old : EventQueueEntry) (data : Nat → UInt8) {len : Nat}
    (now : Option Timespec) (h : len < MAX_EVENT_SIZE) :
    (fillEntry old data len now).jsonData.bytes =
      (List.range len).map data ++ 0 :: old.jsonData.bytes.drop (len + 1) :=
  Buffer.copy_bytes _ _ h

theorem eventOf_fillEntry (old : EventQueueEntry) (data : Nat → UInt8) {len : Nat}
    (now : Option Timespec) (h : len < MAX_EVENT_SIZE) :
    eventOf (fillEntry old data len now) = ⟨(List.range len).map data, now.getD ⟨0, 0⟩⟩ := by
  have hlen : (fillEntry old data len now).jsonLen = ((List.range len).map data).length := by
    simp [fillEntry]
  rw [eventOf, fillEntry_bytes old data now h, hlen, List.take_left]
  rfl

theorem terminated_fillEntry (old : EventQueueEntry) (data : Nat → UInt8) {len : Nat}
    (now : Option Timespec) (h : len < MAX_EVENT_SIZE) :
    Terminated (fillEntry old data len now) := by
  refine ⟨h, ?_⟩
  rw [fillEntry_bytes old data now h]
  simp [fillEntry]

/-! ## One call -/

theorem Refines.length {q : EventQueue} {f : Fifo} (h : Refines q f) :
    f.events.length = q.count.toNat := by
  rw [← h.events, List.length_map, EventQueue.contents, view_length]

theorem enqueue_refines {q : EventQueue} {f : Fifo} (h : Refines q f)
    (jsonData : Option (Nat → UInt8)) (len : Nat) (now : Option Timespec) :
    Agrees (execCall q (.enqueue jsonData len now)).1 (specCall f (.enqueue jsonData len now)).1 ∧
      Refines (execCall q (.enqueue jsonData len now)).2
        (specCall f (.enqueue jsonData len now)).2 := by
  cases jsonData with
  | none => exact ⟨.enqueued _, h⟩
  | some data =>
    by_cases hlen : 0 < len ∧ len < MAX_EVENT_SIZE
    · obtain ⟨h0, hm⟩ := hlen
      simp only [execCall, specCall, if_pos (And.intro h0 hm),
        queueEnqueue_accepts h.inRange data now h0 hm]
      refine ⟨.enqueued 0, acceptedQueue_inRange h.inRange _, ?_, ?_,
        acceptedQueue_dropped h.inRange _ h.length h.dropped⟩
      · rw [acceptedQueue_contents h.inRange, push_map, h.events, eventOf_fillEntry _ _ _ hm]
      · intro e he
        rw [acceptedQueue_contents h.inRange] at he
        rcases mem_push he with he | rfl
        · exact h.terminated e he
        · exact terminated_fillEntry _ _ _ hm
    · have hbad : some data = none ∨ len = 0 ∨ MAX_EVENT_SIZE ≤ len := by
        simp only [reduceCtorEq, false_or]; omega
      simp only [execCall, specCall, if_neg hlen, queueEnqueue_rejects q _ now hbad]
      exact ⟨.enqueued _, h⟩

theorem dequeue_refines {q : EventQueue} {f : Fifo} (h : Refines q f) (maxCount : Int) :
    Agrees (execCall q (.dequeueBatch maxCount)).1 (specCall f (.dequeueBatch maxCount)).1 ∧
      Refines (execCall q (.dequeueBatch maxCount)).2 (specCall f (.dequeueBatch maxCount)).2 := by
  by_cases hpos : 0 < maxCount
  · obtain ⟨hout, hin, hentries, hdropped, _, hview⟩ :=
      dequeueLoop_spec maxCount.toNat h.inRange
    have hrest : (dequeueLoop maxCount.toNat q).2.contents = q.contents.drop maxCount.toNat := by
      rw [EventQueue.contents, hview, hentries]; rfl
    simp only [execCall, specCall, queueDequeueBatch, if_neg (not_le.mpr hpos), if_pos hpos]
    refine ⟨?_, hin, ?_, ?_, hdropped.trans h.dropped⟩
    · rw [hout, ← h.events, ← List.map_take]
      exact .dequeued 0 fun e he => h.terminated e (List.mem_of_mem_take he)
    · rw [hrest, List.map_drop, h.events]
    · intro e he
      rw [hrest] at he
      exact h.terminated e (List.mem_of_mem_drop he)
  · simp only [execCall, specCall, queueDequeueBatch, if_pos (not_lt.mp hpos), if_neg hpos]
    exact ⟨.dequeued (-1) (by simp), h⟩

theorem call_refines (q : EventQueue) (f : Fifo) (c : QueueCall) (h : Refines q f) :
    Agrees (execCall q c).1 (specCall f c).1 ∧ Refines (execCall q c).2 (specCall f c).2 := by
  cases c with
  | enqueue jsonData len now => exact enqueue_refines h jsonData len now
  | dequeueBatch maxCount => exact dequeue_refines h maxCount

theorem freshQueue_refines (memory : Nat → EventQueueEntry) :
    Refines (freshQueue memory) ⟨[], 0⟩ where
  inRange := freshQueue_inRange memory
  events := rfl
  terminated := by simp [EventQueue.contents]
  dropped := rfl

/-- A queue that has been created is a fresh one. -/
theorem queueCreate_eq_some {memory : Nat → EventQueueEntry} {malloc mutexInit condInit : Bool} {q : EventQueue} :
    queueCreate memory malloc mutexInit condInit = some q ↔
      (malloc = true ∧ mutexInit = true ∧ condInit = true) ∧ freshQueue memory = q := by
  cases malloc <;> cases mutexInit <;> cases condInit <;> simp [queueCreate]

/-- And it holds nothing. -/
theorem queueCreate_refines {memory : Nat → EventQueueEntry} {malloc mutexInit condInit : Bool} {q : EventQueue}
    (h : queueCreate memory malloc mutexInit condInit = some q) : Refines q ⟨[], 0⟩ :=
  (queueCreate_eq_some.mp h).2 ▸ freshQueue_refines memory

/-! ## Every run -/

/-- **The queue refines the bounded FIFO.** Over every list of calls on a
created queue the answers agree with those of the abstract queue, and the state
reached is in range and holds the abstract state. There a refused call leaves
the queue as it is, and an accepted one puts an entry with exactly the given
bytes, their number and a terminator behind the last one. -/
theorem queue_refines_fifo (memory : Nat → EventQueueEntry) (calls : List QueueCall) :
    let c := trace execCall (freshQueue memory) calls
    let f := trace specCall ⟨[], 0⟩ calls
    List.Forall₂ Agrees c.1 f.1 ∧ Refines c.2 f.2 ∧
      (∀ jsonData len now, len = 0 ∨ MAX_EVENT_SIZE ≤ len →
        queueEnqueue c.2 jsonData len now = (-1, c.2)) ∧
      (∀ data len now, 0 < len → len < MAX_EVENT_SIZE → ∃ entry,
        (queueEnqueue c.2 (some data) len now).2.contents =
          push MAX_QUEUE_DEPTH c.2.contents entry ∧
        entry.jsonLen = len ∧ entry.jsonData.bytes.take len = (List.range len).map data ∧
        entry.jsonData.bytes[len]? = some 0) := by
  intro c f
  obtain ⟨hagree, href⟩ := trace_simulation call_refines calls (freshQueue_refines memory)
  refine ⟨hagree, href, ?_, ?_⟩
  · intro jsonData len now hlen
    exact queueEnqueue_rejects c.2 jsonData now (.inr hlen)
  · intro data len now h0 hm
    refine ⟨fillEntry (c.2.entries c.2.tail.toNat) data len now, ?_, rfl,
      congrArg QueuedEvent.payload (eventOf_fillEntry _ data now hm),
      (terminated_fillEntry _ data now hm).2⟩
    rw [queueEnqueue_accepts href.inRange data now h0 hm]
    exact acceptedQueue_contents href.inRange _

end Syswatch.QueueSoundness
