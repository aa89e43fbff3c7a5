import Syswatch.Types
import Syswatch.Lib.BoundedFifo

/-! # The bounded event queue (`queue.c`)

Every function runs under the queue's lock, so a call is one atomic step. The
slots of a fresh queue hold whatever `malloc` left there. -/

namespace Syswatch
open Lib.CText

structure EventQueueEntry where
  jsonData : Buffer MAX_EVENT_SIZE
  jsonLen : Nat
  enqueueTime : Timespec

/-- `event_queue_t`; `head`, `tail` and `count` are C `int`s. -/
structure EventQueue where
  entries : Nat → EventQueueEntry
  head : Int
  tail : Int
  count : Int
  droppedCount : UInt64
  emittedCount : UInt64

def freshQueue (memory : Nat → EventQueueEntry) : EventQueue where
  entries := memory
  head := 0
  tail := 0
  count := 0
  droppedCount := 0
  emittedCount := 0

/-- `queue_create`: fails when the allocation or one of the two
initialisations of the lock does. -/
def queueCreate (memory : Nat → EventQueueEntry) (malloc mutexInit condInit : Bool) :
    Option EventQueue :=
  if !malloc then none
  else if !mutexInit then none
  else if !condInit then none
  else some (freshQueue memory)

/-- `(i + 1) % MAX_QUEUE_DEPTH` of C. -/
def nextSlot (i : Int) : Int := (i + 1).tmod MAX_QUEUE_DEPTH

/-- The entry that `queue_enqueue` leaves in a slot. Bytes behind the
terminator are those of the entry overwritten. -/
def fillEntry (old : EventQueueEntry) (jsonData : Nat → UInt8) (len : Nat)
    (now : Option Timespec) : EventQueueEntry where
  jsonData := (old.jsonData.memcpy jsonData len).store len 0
  jsonLen := len
  enqueueTime := now.getD ⟨0, 0⟩

/-- Make room: a full queue loses its oldest entry. -/
def dropOldest (q : EventQueue) : EventQueue :=
  if q.count ≥ MAX_QUEUE_DEPTH then
    { q with head := nextSlot q.head, count := q.count - 1, droppedCount := q.droppedCount + 1 }
  else q

/-- `queue_enqueue(q, json_data, len)`; `now` is what `clock_gettime` gives,
`none` when it fails. -/
def queueEnqueue (q : EventQueue) (jsonData : Option (Nat → UInt8)) (len : Nat)
    (now : Option Timespec) : Int × EventQueue :=
  match jsonData with
  | none => (-1, q)
  | some data =>
    if len = 0 ∨ len ≥ MAX_EVENT_SIZE then (-1, q)
    else
      let q := dropOldest q
      let slot := q.tail.toNat
      let entry := fillEntry (q.entries slot) data len now
      (0, { q with
        entries := Function.update q.entries slot entry
        tail := nextSlot q.tail
        count := q.count + 1
        emittedCount := q.emittedCount + 1 })

/-- The loop of `queue_dequeue_batch`, with `room` more places in `out`. -/
def dequeueLoop : Nat → EventQueue → List EventQueueEntry × EventQueue
  | 0, q => ([], q)
  | room + 1, q =>
    if q.count > 0 then
      let entry := q.entries q.head.toNat
      let rest := dequeueLoop room { q with head := nextSlot q.head, count := q.count - 1 }
      (entry :: rest.1, rest.2)
    else ([], q)

/-- `queue_dequeue_batch(q, out, max_count, &count)`: the result, the entries
copied to `out`, and the queue. -/
def queueDequeueBatch (q : EventQueue) (maxCount : Int) :
    Int × List EventQueueEntry × EventQueue :=
  if maxCount ≤ 0 then (-1, [], q)
  else
    let r := dequeueLoop maxCount.toNat q
    (0, r.1, r.2)

def queueSize (q : EventQueue) : Int := q.count

def queueDroppedCount (q : EventQueue) : UInt64 := q.droppedCount

/-! ## What the operations do -/

open Lib.BoundedFifo

/-- The live part of a memory with one cell for each slot, oldest first. -/
def EventQueue.view {α : Type*} (q : EventQueue) (slots : Nat → α) : List α :=
  window slots MAX_QUEUE_DEPTH q.head.toNat q.count.toNat

/-- The entries of the queue, oldest first. -/
def EventQueue.contents (q : EventQueue) : List EventQueueEntry := q.view q.entries

/-- The ring's invariant: indices and count in range, and `tail` where the
count says. -/
structure EventQueue.InRange (q : EventQueue) : Prop where
  head : 0 ≤ q.head ∧ q.head < MAX_QUEUE_DEPTH
  tail : 0 ≤ q.tail ∧ q.tail < MAX_QUEUE_DEPTH
  count : 0 ≤ q.count ∧ q.count ≤ MAX_QUEUE_DEPTH
  wraps : q.tail = (q.head + q.count) % MAX_QUEUE_DEPTH

theorem nextSlot_eq {i : Int} (h : 0 ≤ i) : nextSlot i = (i + 1) % MAX_QUEUE_DEPTH :=
  Int.tmod_eq_emod_of_nonneg (by omega)

theorem nextSlot_toNat {i : Int} (h : 0 ≤ i) :
    (nextSlot i).toNat = (i.toNat + 1) % MAX_QUEUE_DEPTH := by
  rw [nextSlot_eq h]
  simp only [MAX_QUEUE_DEPTH]
  omega

theorem nextSlot_range {i : Int} (h : 0 ≤ i) :
    0 ≤ nextSlot i ∧ nextSlot i < MAX_QUEUE_DEPTH := by
  rw [nextSlot_eq h]
  simp only [MAX_QUEUE_DEPTH]
  omega

theorem freshQueue_inRange (memory : Nat → EventQueueEntry) : (freshQueue memory).InRange where
  head := by simp [freshQueue, MAX_QUEUE_DEPTH]
  tail := by simp [freshQueue, MAX_QUEUE_DEPTH]
  count := by simp [freshQueue, MAX_QUEUE_DEPTH]
  wraps := by simp [freshQueue]

@[simp] theorem freshQueue_view {α : Type*} (memory : Nat → EventQueueEntry) (slots : Nat → α) :
    (freshQueue memory).view slots = [] := rfl

theorem view_length {α : Type*} (q : EventQueue) (slots : Nat → α) :
    (q.view slots).length = q.count.toNat := window_length _ _ _ _

/-- Taking the entry at `head` out of the ring keeps it a ring. -/
theorem InRange.advance {q p : EventQueue} (h : q.InRange) (hc : 0 < q.count)
    (hhead : p.head = nextSlot q.head) (htail : p.tail = q.tail)
    (hcount : p.count = q.count - 1) : p.InRange := by
  have hw := h.wraps
  have hh := h.head
  have hq := h.count
  refine ⟨hhead ▸ nextSlot_range hh.1, htail ▸ h.tail, by omega, ?_⟩
  rw [htail, hhead, hcount, nextSlot_eq hh.1, hw]
  simp only [MAX_QUEUE_DEPTH]
  omega

/-- What is live then is the rest. -/
theorem advance_view {α : Type*} {q p : EventQueue} (h : q.InRange)
    (hhead : p.head = nextSlot q.head) (hcount : p.count = q.count - 1) (slots : Nat → α) :
    p.view slots = (q.view slots).tail := by
  rw [EventQueue.view, EventQueue.view, window_tail, hhead, hcount, nextSlot_toNat h.head.1]
  congr 1
  omega

/-- **`dropOldest`**: only a full queue changes, by losing its first entry. -/
theorem dropOldest_spec {q : EventQueue} (h : q.InRange) :
    (dropOldest q).InRange ∧ (dropOldest q).count < MAX_QUEUE_DEPTH ∧
      (dropOldest q).tail = q.tail ∧ (dropOldest q).entries = q.entries ∧
      (dropOldest q).emittedCount = q.emittedCount ∧
      (dropOldest q).droppedCount =
        q.droppedCount + (if q.count < MAX_QUEUE_DEPTH then 0 else 1) ∧
      ∀ {α : Type} (slots : Nat → α), (dropOldest q).view slots =
        if q.count < MAX_QUEUE_DEPTH then q.view slots else (q.view slots).tail := by
  have hcount := h.count
  by_cases hfull : q.count ≥ MAX_QUEUE_DEPTH
  · have hpos : 0 < q.count := by simp only [MAX_QUEUE_DEPTH] at hfull; omega
    have heq : dropOldest q = { q with
        head := nextSlot q.head, count := q.count - 1, droppedCount := q.droppedCount + 1 } :=
      if_pos hfull
    simp only [heq, if_neg (not_lt.mpr hfull)]
    exact ⟨InRange.advance h hpos rfl rfl rfl, by omega, trivial, trivial, trivial, trivial,
      fun slots => advance_view h rfl rfl slots⟩
  · have heq : dropOldest q = q := if_neg hfull
    simp only [heq, if_pos (not_le.mp hfull)]
    exact ⟨h, not_le.mp hfull, trivial, trivial, trivial, by simp, fun _ => trivial⟩

/-- What an accepted call leaves behind. -/
def acceptedQueue (q : EventQueue) (entry : EventQueueEntry) : EventQueue :=
  { dropOldest q with
    entries := Function.update q.entries q.tail.toNat entry
    tail := nextSlot q.tail
    count := (dropOldest q).count + 1
    emittedCount := q.emittedCount + 1 }

/-- **`queue_enqueue` accepts** exactly the lengths between 1 and `MAX_EVENT_SIZE - 1`. -/
theorem queueEnqueue_accepts {q : EventQueue} (h : q.InRange) (data : Nat → UInt8) {len : Nat}
    (now : Option Timespec) (h0 : 0 < len) (hm : len < MAX_EVENT_SIZE) :
    queueEnqueue q (some data) len now =
      (0, acceptedQueue q (fillEntry (q.entries q.tail.toNat) data len now)) := by
  obtain ⟨_, _, htail, hentries, hemitted, _, _⟩ := dropOldest_spec h
  have hlen : ¬(len = 0 ∨ len ≥ MAX_EVENT_SIZE) := by omega
  simp only [queueEnqueue, if_neg hlen, acceptedQueue, htail, hentries, hemitted]

theorem queueEnqueue_rejects (q : EventQueue) (jsonData : Option (Nat → UInt8)) {len : Nat}
    (now : Option Timespec) (h : jsonData = none ∨ len = 0 ∨ MAX_EVENT_SIZE ≤ len) :
    queueEnqueue q jsonData len now = (-1, q) := by
  cases jsonData with
  | none => rfl
  | some data =>
    have hlen : len = 0 ∨ len ≥ MAX_EVENT_SIZE := by simpa using h
    simp only [queueEnqueue, if_pos hlen]

/-- `queue_enqueue(q, text, strlen(text))` takes the text, whatever the queue holds. -/
def Accepted (text : Bytes) : Prop :=
  ∀ q now, (queueEnqueue q (some (pointer text)) text.length now).1 = 0

theorem accepted_iff (text : Bytes) :
    Accepted text ↔ 0 < text.length ∧ text.length < MAX_EVENT_SIZE := by
  constructor
  · intro h
    by_contra hlen
    have := h (freshQueue fun _ => ⟨.zero MAX_EVENT_SIZE, 0, ⟨0, 0⟩⟩) none
    rw [queueEnqueue_rejects _ _ _ (.inr (by omega))] at this
    cases this
  · intro ⟨h0, hm⟩ q now
    have hlen : ¬(text.length = 0 ∨ text.length ≥ MAX_EVENT_SIZE) := by omega
    simp only [queueEnqueue, if_neg hlen]

instance (text : Bytes) : Decidable (Accepted text) := decidable_of_iff _ (accepted_iff text).symm

theorem acceptedQueue_inRange {q : EventQueue} (h : q.InRange) (entry : EventQueueEntry) :
    (acceptedQueue q entry).InRange := by
  obtain ⟨hin, hroom, htail, _⟩ := dropOldest_spec h
  have hw := hin.wraps
  have hc := hin.count
  have hh := hin.head
  rw [htail] at hw
  refine ⟨hin.head, nextSlot_range h.tail.1, ?_, ?_⟩
  · simp only [acceptedQueue]; omega
  · change nextSlot q.tail = ((dropOldest q).head + ((dropOldest q).count + 1)) % MAX_QUEUE_DEPTH
    rw [nextSlot_eq h.tail.1, hw]
    simp only [MAX_QUEUE_DEPTH]
    omega

/-- In every memory that is written at `tail` with the entries, an accepted
call is a `push`. -/
theorem acceptedQueue_view {α : Type} {q : EventQueue} (h : q.InRange) (entry : EventQueueEntry)
    (slots : Nat → α) (x : α) :
    (acceptedQueue q entry).view (Function.update slots q.tail.toNat x) =
      push MAX_QUEUE_DEPTH (q.view slots) x := by
  obtain ⟨hin, hroom, htail, _, _, _, hview⟩ := dropOldest_spec h
  have hw := hin.wraps
  have hc := hin.count
  have hh := hin.head
  rw [htail] at hw
  have hslot : q.tail.toNat =
      ((dropOldest q).head.toNat + (dropOldest q).count.toNat) % MAX_QUEUE_DEPTH := by
    rw [hw]; simp only [MAX_QUEUE_DEPTH]; omega
  have hwrite := window_write slots MAX_QUEUE_DEPTH (dropOldest q).head.toNat
    (dropOldest q).count.toNat x (by omega)
  have hcount : ((dropOldest q).count + 1).toNat = (dropOldest q).count.toNat + 1 := by omega
  have hfull : (q.view slots).length < MAX_QUEUE_DEPTH ↔ q.count < MAX_QUEUE_DEPTH := by
    rw [view_length]; have := h.count; omega
  have happend : (acceptedQueue q entry).view (Function.update slots q.tail.toNat x) =
      (dropOldest q).view slots ++ [x] := by
    simp only [EventQueue.view, acceptedQueue, hcount, hslot]
    exact hwrite
  rw [happend, hview, push]
  simp only [hfull]

theorem acceptedQueue_contents {q : EventQueue} (h : q.InRange) (entry : EventQueueEntry) :
    (acceptedQueue q entry).contents = push MAX_QUEUE_DEPTH q.contents entry :=
  acceptedQueue_view h entry q.entries entry

/-- `dropped_count` counts what the `push` evicts. -/
theorem acceptedQueue_dropped {α : Type} {q : EventQueue} (h : q.InRange) (entry : EventQueueEntry)
    {l : List α} (hl : l.length = q.count.toNat) {n : Nat} (hn : q.droppedCount = UInt64.ofNat n) :
    (acceptedQueue q entry).droppedCount =
      UInt64.ofNat (n + (evicted MAX_QUEUE_DEPTH l).length) := by
  have hfull : l.length < MAX_QUEUE_DEPTH ↔ q.count < MAX_QUEUE_DEPTH := by
    have := h.count; omega
  change (dropOldest q).droppedCount = _
  rw [(dropOldest_spec h).2.2.2.2.2.1, hn, evicted_length l (by decide)]
  simp only [hfull]
  split <;> simp

/-- **The loop of `queue_dequeue_batch`** takes the first `room` entries; the
memory and the counters stay. -/
theorem dequeueLoop_spec : ∀ (room : Nat) {q : EventQueue}, q.InRange →
    (dequeueLoop room q).1 = q.contents.take room ∧
    (dequeueLoop room q).2.InRange ∧
    (dequeueLoop room q).2.entries = q.entries ∧
    (dequeueLoop room q).2.droppedCount = q.droppedCount ∧
    (dequeueLoop room q).2.emittedCount = q.emittedCount ∧
    ∀ {α : Type} (slots : Nat → α), (dequeueLoop room q).2.view slots = (q.view slots).drop room
  | 0, q, h => ⟨by simp [dequeueLoop], h, rfl, rfl, rfl, fun _ => by simp [dequeueLoop]⟩
  | room + 1, q, h => by
    by_cases hc : 0 < q.count
    · have ih := dequeueLoop_spec room (InRange.advance h hc (p :=
        { q with head := nextSlot q.head, count := q.count - 1 }) rfl rfl rfl)
      obtain ⟨hout, hin, he, hd, hm, hview⟩ := ih
      have hhead : q.contents = q.entries q.head.toNat :: q.contents.tail := by
        obtain ⟨n, hn⟩ : ∃ n, q.count.toNat = n + 1 := ⟨q.count.toNat - 1, by omega⟩
        have hlt : q.head.toNat % MAX_QUEUE_DEPTH = q.head.toNat :=
          Nat.mod_eq_of_lt (by have := h.head; omega)
        simp only [EventQueue.contents, EventQueue.view, hn, window_succ, hlt, List.tail_cons]
      simp only [dequeueLoop, gt_iff_lt, if_pos hc]
      refine ⟨?_, hin, he, hd, hm, fun slots => ?_⟩
      · rw [hout, hhead, List.take_succ_cons]
        exact congrArg _ (congrArg _ (advance_view h rfl rfl q.entries))
      · rw [hview, advance_view h rfl rfl, List.drop_tail]
    · have hz : q.count = 0 := by have := h.count; omega
      have hnil : ∀ {α : Type} (slots : Nat → α), q.view slots = [] := fun slots =>
        List.length_eq_zero_iff.mp (by rw [view_length, hz]; rfl)
      simp only [dequeueLoop, gt_iff_lt, if_neg hc]
      refine ⟨?_, h, trivial, trivial, trivial, fun slots => ?_⟩
      · rw [EventQueue.contents, hnil, List.take_nil]
      · rw [hnil, List.drop_nil]

end Syswatch
