import Syswatch.QueueSoundness

/-! # The history of the queue

Ghost state beside the ring buffer: for every slot the number of the accepted
event last written to it, the accepted entries in order, and the numbered
entries handed out so far. It follows the calls of both threads and changes
nothing they compute; the numbered FIFO of the library is its abstraction. -/

namespace Syswatch.QueueHistory
open Lib.BoundedFifo Lib.Machine Syswatch.QueueSoundness

structure Tracked where
  queue : EventQueue
  numbers : Nat → Nat
  accepted : List EventQueueEntry
  taken : List (Nat × EventQueueEntry)

namespace Tracked

/-- `queue_enqueue`, numbering the slot it writes when it accepts. -/
def enqueue (t : Tracked) (jsonData : Option (Nat → UInt8)) (len : Nat) (now : Option Timespec) :
    Tracked :=
  let r := queueEnqueue t.queue jsonData len now
  let slot := t.queue.tail.toNat
  if r.1 = 0 then
    { queue := r.2
      numbers := Function.update t.numbers slot t.accepted.length
      accepted := t.accepted ++ [r.2.entries slot]
      taken := t.taken }
  else { t with queue := r.2 }

/-- `queue_dequeue_batch`, with the numbers of the slots it reads. -/
def dequeueBatch (t : Tracked) (maxCount : Int) : Tracked :=
  let r := queueDequeueBatch t.queue maxCount
  { t with
    queue := r.2.2
    taken := t.taken ++ (t.queue.view t.numbers).zip r.2.1 }

def step (t : Tracked) : QueueCall → Tracked
  | .enqueue jsonData len now => t.enqueue jsonData len now
  | .dequeueBatch maxCount => t.dequeueBatch maxCount

/-- The numbered entries in the queue, oldest first. -/
def live (t : Tracked) : List (Nat × EventQueueEntry) :=
  t.queue.view fun slot => (t.numbers slot, t.queue.entries slot)

/-- The numbers handed out so far, then those in the queue. -/
def present (t : Tracked) : List Nat := Ledger.nums (t.taken ++ t.live)

def ledger (t : Tracked) (lost : List (Nat × EventQueueEntry)) : Ledger EventQueueEntry :=
  ⟨t.accepted, t.taken, t.live, lost⟩

end Tracked

/-- Before the first call. -/
def fresh (memory : Nat → EventQueueEntry) : Tracked := ⟨freshQueue memory, fun _ => 0, [], []⟩

def history (t : Tracked) (calls : List QueueCall) : Tracked := calls.foldl Tracked.step t

/-! ## The numbered FIFO follows the ring buffer -/

/-- The ghost state is that of a numbered FIFO, whose counts the queue keeps. -/
structure Follows (t : Tracked) (g : Ledger EventQueueEntry) : Prop where
  inRange : t.queue.InRange
  pushed : g.pushed = t.accepted
  taken : g.taken = t.taken
  live : g.live = t.live
  dropped : t.queue.droppedCount = UInt64.ofNat g.lost.length
  emitted : t.queue.emittedCount = UInt64.ofNat g.pushed.length

/-- The operation of the numbered FIFO a call stands for; a refused call takes nothing. -/
def opOf (t : Tracked) : QueueCall → Op EventQueueEntry
  | .enqueue jsonData len now =>
    let r := queueEnqueue t.queue jsonData len now
    if r.1 = 0 then .push (r.2.entries t.queue.tail.toNat) else .pop 0
  | .dequeueBatch maxCount => .pop maxCount.toNat

theorem zip_take_right {α β : Type} (l : List α) (m : List β) (n : Nat) :
    l.zip (m.take n) = (l.zip m).take n := by
  induction l generalizing m n with
  | nil => simp
  | cons a l ih => cases m <;> cases n <;> simp [ih]

theorem live_length (t : Tracked) : t.live.length = t.queue.count.toNat := view_length _ _

theorem enqueue_accepted {t : Tracked} (h : t.queue.InRange) (data : Nat → UInt8) {len : Nat}
    (now : Option Timespec) (h0 : 0 < len) (hm : len < MAX_EVENT_SIZE) :
    let entry := fillEntry (t.queue.entries t.queue.tail.toNat) data len now
    t.enqueue (some data) len now =
      ⟨acceptedQueue t.queue entry, Function.update t.numbers t.queue.tail.toNat t.accepted.length,
        t.accepted ++ [entry], t.taken⟩ ∧
    opOf t (.enqueue (some data) len now) = .push entry := by
  have he := queueEnqueue_accepts h data now h0 hm
  constructor <;> simp [Tracked.enqueue, opOf, he, acceptedQueue]

theorem enqueue_refused {t : Tracked} {jsonData : Option (Nat → UInt8)} {len : Nat}
    (now : Option Timespec) (h : jsonData = none ∨ len = 0 ∨ MAX_EVENT_SIZE ≤ len) :
    t.enqueue jsonData len now = t ∧ opOf t (.enqueue jsonData len now) = .pop 0 := by
  have he := queueEnqueue_rejects t.queue jsonData now h
  constructor <;> simp [Tracked.enqueue, opOf, he]

theorem enqueue_live {t : Tracked} (h : t.queue.InRange) (entry : EventQueueEntry) (n : Nat)
    (accepted : List EventQueueEntry) :
    (Tracked.mk (acceptedQueue t.queue entry) (Function.update t.numbers t.queue.tail.toNat n)
      accepted t.taken).live = push MAX_QUEUE_DEPTH t.live (n, entry) := by
  have hpair : (fun slot => (Function.update t.numbers t.queue.tail.toNat n slot,
      (acceptedQueue t.queue entry).entries slot)) =
      Function.update (fun slot => (t.numbers slot, t.queue.entries slot)) t.queue.tail.toNat
        (n, entry) := by
    funext slot
    by_cases hs : slot = t.queue.tail.toNat
    · subst hs; simp [acceptedQueue]
    · simp [acceptedQueue, Function.update_of_ne hs]
  rw [Tracked.live, hpair]
  exact acceptedQueue_view h entry _ _

/-- A batch takes the first entries, with their numbers. -/
theorem dequeue_spec {t : Tracked} (h : t.queue.InRange) (maxCount : Int) :
    (t.dequeueBatch maxCount).queue.InRange ∧
    (t.dequeueBatch maxCount).accepted = t.accepted ∧
    (t.dequeueBatch maxCount).taken = t.taken ++ t.live.take maxCount.toNat ∧
    (t.dequeueBatch maxCount).live = t.live.drop maxCount.toNat ∧
    (t.dequeueBatch maxCount).queue.droppedCount = t.queue.droppedCount ∧
    (t.dequeueBatch maxCount).queue.emittedCount = t.queue.emittedCount := by
  by_cases hpos : maxCount ≤ 0
  · have hz : maxCount.toNat = 0 := by omega
    simp [Tracked.dequeueBatch, queueDequeueBatch, hpos, hz, h, Tracked.live]
  · obtain ⟨hout, hin, hentries, hd, hm, hview⟩ := dequeueLoop_spec maxCount.toNat h
    have hzip : (t.queue.view t.numbers).zip (t.queue.contents.take maxCount.toNat) =
        t.live.take maxCount.toNat := by
      have hl : t.live = (t.queue.view t.numbers).zip t.queue.contents := by
        simp only [Tracked.live, EventQueue.contents, EventQueue.view, window]
        rw [List.zip_map']
      rw [hl, zip_take_right]
    simp only [Tracked.dequeueBatch, queueDequeueBatch, if_neg hpos]
    refine ⟨hin, trivial, ?_, ?_, hd, hm⟩
    · rw [hout, hzip]
    · simp only [Tracked.live, hentries]
      exact hview _

theorem step_follows {t : Tracked} {g : Ledger EventQueueEntry} (h : Follows t g)
    (c : QueueCall) : Follows (t.step c) (g.step MAX_QUEUE_DEPTH (opOf t c)) := by
  obtain ⟨hin, hpushed, htaken, hlive, hdropped, hemitted⟩ := h
  cases c with
  | dequeueBatch maxCount =>
    obtain ⟨hin', hacc, htk, hlv, hd, hm⟩ := dequeue_spec hin maxCount
    refine ⟨hin', ?_, ?_, ?_, ?_, ?_⟩
    · exact hpushed.trans hacc.symm
    · simp only [Tracked.step, opOf, Ledger.step, htk, htaken, hlive]
    · simp only [Tracked.step, opOf, Ledger.step, hlv, hlive]
    · exact hd.trans hdropped
    · exact hm.trans hemitted
  | enqueue jsonData len now =>
    by_cases hbad : jsonData = none ∨ len = 0 ∨ MAX_EVENT_SIZE ≤ len
    · obtain ⟨hsame, hop⟩ := enqueue_refused (t := t) now hbad
      simp only [Tracked.step, hsame, hop]
      exact ⟨hin, hpushed, by simp [Ledger.step, htaken], by simp [Ledger.step, hlive], hdropped,
        hemitted⟩
    · simp only [not_or, not_le] at hbad
      obtain ⟨hnone, h0, hm⟩ := hbad
      obtain ⟨data, rfl⟩ := Option.ne_none_iff_exists'.mp hnone
      obtain ⟨hnext, hop⟩ := enqueue_accepted hin data now (Nat.pos_of_ne_zero h0) hm
      simp only [Tracked.step, hnext, hop]
      refine ⟨acceptedQueue_inRange hin _, ?_, htaken, ?_, ?_, ?_⟩
      · simp only [Ledger.step, hpushed]
      · simp only [Ledger.step, hlive, hpushed]
        exact (enqueue_live hin _ _ _).symm
      · have hlen : g.live.length = t.queue.count.toNat := by rw [hlive, live_length]
        simp only [Ledger.step, List.length_append]
        exact acceptedQueue_dropped hin _ hlen hdropped
      · simp only [Ledger.step, acceptedQueue, hemitted, List.length_append, List.length_singleton]
        simp

theorem fresh_follows (memory : Nat → EventQueueEntry) : Follows (fresh memory) Ledger.empty where
  inRange := freshQueue_inRange memory
  pushed := rfl
  taken := rfl
  live := rfl
  dropped := rfl
  emitted := rfl

/-- The operations a list of calls stands for. -/
def opsFrom (t : Tracked) : List QueueCall → List (Op EventQueueEntry)
  | [] => []
  | c :: cs => opOf t c :: opsFrom (t.step c) cs

theorem history_follows (cs : List QueueCall) {t : Tracked} {g : Ledger EventQueueEntry}
    (h : Follows t g) :
    Follows (history t cs) ((opsFrom t cs).foldl (Ledger.step MAX_QUEUE_DEPTH) g) := by
  induction cs generalizing t g with
  | nil => exact h
  | cons c cs ih => exact ih (step_follows h c)

theorem opsFrom_take (cs : List QueueCall) (t : Tracked) (k : Nat) :
    (opsFrom t cs).take k = opsFrom t (cs.take k) := by
  induction cs generalizing t k with
  | nil => simp [opsFrom]
  | cons c cs ih => cases k <;> simp [opsFrom, ih]

theorem opsFrom_getElem? (cs : List QueueCall) (t : Tracked) (k : Nat) :
    (opsFrom t cs)[k]? = cs[k]?.map (opOf (history t (cs.take k))) := by
  induction cs generalizing t k with
  | nil => simp [opsFrom]
  | cons c cs ih =>
    cases k with
    | zero => simp [opsFrom, history]
    | succ k => simp [opsFrom, ih, history]

theorem fresh_history (memory : Nat → EventQueueEntry) (cs : List QueueCall) :
    Follows (history (fresh memory) cs)
      (Ledger.run MAX_QUEUE_DEPTH (opsFrom (fresh memory) cs)) :=
  history_follows cs (fresh_follows memory)

theorem history_take_succ (t : Tracked) {cs : List QueueCall} {k : Nat} {c : QueueCall}
    (hc : cs[k]? = some c) : history t (cs.take (k + 1)) = (history t (cs.take k)).step c := by
  simp only [history, List.take_add_one, hc, Option.toList_some, List.foldl_append,
    List.foldl_cons, List.foldl_nil]

/-- The calls that push are those that accept an event; a call that takes
nothing accepts nothing. -/
theorem Follows.push_iff {t : Tracked} {g : Ledger EventQueueEntry} (h : Follows t g)
    (c : QueueCall) : (∃ x, opOf t c = .push x) ↔
      (t.step c).accepted.length = t.accepted.length + 1 := by
  have hs := (step_follows h c).pushed
  cases hop : opOf t c with
  | push x =>
    rw [hop] at hs
    refine iff_of_true ⟨x, rfl⟩ ?_
    rw [← hs, ← h.pushed]
    simp [Ledger.step]
  | pop n =>
    rw [hop] at hs
    refine iff_of_false (by simp) ?_
    rw [← hs, ← h.pushed]
    simp [Ledger.step]

/-! ## The ghost state changes nothing -/

/-- The entries handed out by a list of calls. -/
def batches (replies : List (QueueReply EventQueueEntry)) : List EventQueueEntry :=
  replies.flatMap fun
    | .enqueued _ => []
    | .dequeued _ out => out

theorem step_queue (t : Tracked) (c : QueueCall) : (t.step c).queue = (execCall t.queue c).2 := by
  cases c with
  | enqueue jsonData len now =>
    simp only [Tracked.step, Tracked.enqueue, execCall]
    split <;> rfl
  | dequeueBatch maxCount => rfl

theorem step_taken {t : Tracked} (h : t.queue.InRange) (c : QueueCall) :
    (t.step c).taken.map Prod.snd = t.taken.map Prod.snd ++ batches [(execCall t.queue c).1] := by
  cases c with
  | enqueue jsonData len now =>
    simp only [Tracked.step, Tracked.enqueue, execCall, batches]
    split <;> simp
  | dequeueBatch maxCount =>
    have hlen : (queueDequeueBatch t.queue maxCount).2.1.length ≤
        (t.queue.view t.numbers).length := by
      rw [queueDequeueBatch, view_length]
      split
      · exact Nat.zero_le _
      · rw [(dequeueLoop_spec maxCount.toNat h).1, List.length_take, EventQueue.contents, view_length]
        omega
    simp only [Tracked.step, Tracked.dequeueBatch, execCall, batches, List.map_append]
    rw [List.map_snd_zip hlen]
    simp

theorem history_erases {t : Tracked} {g : Ledger EventQueueEntry} (h : Follows t g)
    (cs : List QueueCall) :
    (trace execCall t.queue cs).2 = (history t cs).queue ∧
      t.taken.map Prod.snd ++ batches (trace execCall t.queue cs).1 =
        (history t cs).taken.map Prod.snd := by
  induction cs generalizing t g with
  | nil => exact ⟨rfl, by simp [trace, batches, history]⟩
  | cons c cs ih =>
    obtain ⟨hq, ht⟩ := ih (step_follows h c)
    rw [step_queue] at hq ht
    refine ⟨hq, ?_⟩
    rw [step_taken h.inRange, List.append_assoc] at ht
    simpa [trace, batches, history] using ht

/-! ## The history law -/

/-- What the numbered FIFO says about a tracked queue. -/
structure Lawful (t : Tracked) (lost : List (Nat × EventQueueEntry)) : Prop where
  good : Ledger.Good MAX_QUEUE_DEPTH (t.ledger lost)
  inRange : t.queue.InRange
  dropped : t.queue.droppedCount = UInt64.ofNat lost.length
  emitted : t.queue.emittedCount = UInt64.ofNat t.accepted.length

theorem Follows.lawful {t : Tracked} {g : Ledger EventQueueEntry} (h : Follows t g)
    (hg : Ledger.Good MAX_QUEUE_DEPTH g) : Lawful t g.lost := by
  have he : t.ledger g.lost = g := by
    obtain ⟨pushed, taken, live, lost⟩ := g
    simp only [Tracked.ledger, ← h.pushed, ← h.taken, ← h.live]
  exact ⟨he ▸ hg, h.inRange, h.dropped, h.pushed ▸ h.emitted⟩

theorem Lawful.step {t : Tracked} {lost : List (Nat × EventQueueEntry)} (h : Lawful t lost)
    (c : QueueCall) : ∃ more, Lawful (t.step c) (lost ++ more) := by
  have hf : Follows t (t.ledger lost) := ⟨h.inRange, rfl, rfl, rfl, h.dropped, h.emitted⟩
  have hn := step_follows hf c
  cases hop : opOf t c with
  | push x =>
    rw [hop] at hn
    exact ⟨_, hn.lawful (h.good.push (by decide) x)⟩
  | pop n =>
    rw [hop] at hn
    exact ⟨[], (List.append_nil lost).symm ▸ hn.lawful (h.good.pop n)⟩

/-- With fewer than 2^64 accepted events no counter has wrapped. -/
theorem Lawful.counts {t : Tracked} {lost : List (Nat × EventQueueEntry)} (h : Lawful t lost)
    (hsmall : t.accepted.length < 2 ^ 64) :
    t.queue.emittedCount.toNat =
      t.taken.length + (queueSize t.queue).toNat + (queueDroppedCount t.queue).toNat := by
  have hlen := h.good.lengths
  have hl := live_length t
  simp only [Tracked.ledger] at hlen
  rw [queueSize, queueDroppedCount, h.emitted, h.dropped, UInt64.toNat_ofNat', UInt64.toNat_ofNat',
    Nat.mod_eq_of_lt hsmall, Nat.mod_eq_of_lt (by omega)]
  omega

/-- An accepted event that is neither handed out nor in the queue is lost. -/
theorem Lawful.absent_iff {t : Tracked} {lost : List (Nat × EventQueueEntry)} (h : Lawful t lost)
    {i : Nat} (hi : i < t.accepted.length) : i ∉ t.present ↔ i ∈ Ledger.nums lost := by
  constructor
  · intro hnot
    rw [Tracked.present, Ledger.nums_append, List.mem_append, not_or] at hnot
    rcases (h.good.mem_iff i).mp hi with ht | hl | hl
    · exact absurd ht hnot.1
    · exact absurd hl hnot.2
    · exact hl
  · exact fun hl hp => h.good.not_lost hp hl

/-- The call that loses an event: the one that accepts the event
`MAX_QUEUE_DEPTH` after it. -/
theorem lost_iff_call (memory : Nat → EventQueueEntry) (calls : List QueueCall) (i : Nat) :
    let before := fun k => history (fresh memory) (calls.take k)
    i ∈ Ledger.nums (Ledger.run MAX_QUEUE_DEPTH (opsFrom (fresh memory) calls)).lost ↔
      ∃ k < calls.length, (before k).accepted.length = i + MAX_QUEUE_DEPTH ∧
        (before (k + 1)).accepted.length = i + MAX_QUEUE_DEPTH + 1 ∧
        i ∉ Ledger.nums (before k).taken := by
  intro before
  have hfollows := fun k => fresh_history memory (calls.take k)
  rw [Ledger.lost_iff (by decide)]
  simp only [opsFrom_take, (hfollows _).pushed, (hfollows _).taken]
  constructor
  · rintro ⟨k, x, hop, hlen, hnot⟩
    rw [opsFrom_getElem?, Option.map_eq_some_iff] at hop
    obtain ⟨c, hc, hx⟩ := hop
    refine ⟨k, (List.getElem?_eq_some_iff.mp hc).1, hlen, ?_, hnot⟩
    simp only [before]
    rw [history_take_succ _ hc, ((hfollows k).push_iff c).mp ⟨x, hx⟩, hlen]
  · rintro ⟨k, hk, hlen, hlen', hnot⟩
    have hc : calls[k]? = some calls[k] := List.getElem?_eq_getElem hk
    simp only [before] at hlen hlen'
    rw [history_take_succ _ hc] at hlen'
    obtain ⟨x, hx⟩ := ((hfollows k).push_iff calls[k]).mpr (by rw [hlen', hlen])
    refine ⟨k, x, ?_, hlen, hnot⟩
    rw [opsFrom_getElem?, hc, Option.map_some, hx]

/-- **The history of a queue.** After every list of calls of both threads: the
ghost state describes the ring buffer and the batches it handed out; the
numbers handed out and then those in the queue increase, and each stands for
the entry accepted under it; an accepted event is missing exactly when the
event `MAX_QUEUE_DEPTH` after it was accepted before it had been handed out;
and the counters add up. -/
theorem queue_history (memory : Nat → EventQueueEntry) (calls : List QueueCall) :
    let t := history (fresh memory) calls
    let before := fun k => history (fresh memory) (calls.take k)
    (trace execCall (freshQueue memory) calls).2 = t.queue ∧
    batches (trace execCall (freshQueue memory) calls).1 = t.taken.map Prod.snd ∧
    t.present.Pairwise (· < ·) ∧
    (∀ p ∈ t.taken ++ t.live, t.accepted[p.1]? = some p.2) ∧
    (∀ i < t.accepted.length, i ∉ t.present ↔ ∃ k < calls.length,
      (before k).accepted.length = i + MAX_QUEUE_DEPTH ∧
      (before (k + 1)).accepted.length = i + MAX_QUEUE_DEPTH + 1 ∧
      i ∉ Ledger.nums (before k).taken) ∧
    (t.accepted.length < 2 ^ 64 → t.queue.emittedCount.toNat =
      t.taken.length + (queueSize t.queue).toNat + (queueDroppedCount t.queue).toNat) := by
  intro t before
  have hgood := Ledger.good_run (show 0 < MAX_QUEUE_DEPTH by decide) (opsFrom (fresh memory) calls)
  have hlaw := (fresh_history memory calls).lawful hgood
  obtain ⟨hqueue, hbatches⟩ := history_erases (fresh_follows memory) calls
  refine ⟨hqueue, hbatches, hlaw.good.sorted,
    fun p hp => hlaw.good.named p (List.mem_append_left _ hp), ?_, hlaw.counts⟩
  intro i hi
  rw [hlaw.absent_iff hi]
  exact lost_iff_call memory calls i

end Syswatch.QueueHistory
