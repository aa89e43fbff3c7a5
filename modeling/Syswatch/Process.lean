import Syswatch.Collector
import Syswatch.QueueHistory
import Syswatch.Output

/-! # The process (`main.c`)

The collector thread, the delivery thread and `main`, interleaved at the points
where they touch what they share: the flag `g_stop`, the queue and, after the
joins, the output. Signals arrive at any point. Beside the program's state the
events handed to `output_emit_event` and the batches posted are written down. -/

namespace Syswatch
open Lib.CText Lib.Machine QueueHistory

/-- An event in the hands of the delivery thread, with its number among the
accepted events. -/
abbrev Numbered := Nat × EventQueueEntry

/-- The line given to `output_emit_event`, with the event's number and the
reading of the clock when it is buffered. -/
structure Handed where
  event : Numbered
  time : ℚ

def Handed.text (h : Handed) : Bytes := cstr h.event.2.jsonData.bytes

inductive DeliveryPc where
  /-- Before `pthread_create`. -/
  | absent
  | testStop
  | testSize
  | dequeue
  | pause
  /-- In the loop over the batch, or behind it when none is pending. -/
  | emit (pending : List Numbered)
  | finalFlush
  | finished

inductive MainPc where
  | createDelivery
  | joinCollector
  | setStop
  | joinDelivery
  | shutdown
  | destroy
  /-- The delivery thread could not be created. -/
  | failedStop
  | failedJoin
  | failedShutdown
  | returned (rc : Int)
  deriving DecidableEq

/-- Which call posted a batch. -/
inductive Origin where
  | emitting
  /-- The `output_flush` behind the loop over a dequeued batch. -/
  | drained
  | final
  | shutdown
  deriving DecidableEq

/-- A batch posted: no earlier than at `time`. `gStop` is the flag and `startedAt` is
`batch_started_at` when the call began, and `ageNow` what the call reads the clock as
when it asks for the age. -/
structure Posted where
  post : Post Handed
  origin : Origin
  gStop : Bool
  time : ℚ
  startedAt : Timespec
  ageNow : Option Timespec

structure Process where
  gStop : Bool
  clock : ℚ
  tracked : Tracked
  collector : Collector
  delivery : DeliveryPc
  main : MainPc
  output : OutputState Handed
  emitted : List Handed
  posts : List Posted

/-- When the first thread has been created. -/
def Process.start (memory : Nat → EventQueueEntry) (clock : ℚ) (output : OutputState Handed) :
    Process :=
  ⟨false, clock, fresh memory, .start, .absent, .createDelivery, output, [], []⟩

inductive DeliveryInput where
  | proceed
  /-- `output_emit_event`, which returns at time `now`. -/
  | emit (env : EmitEnv) (now : ℚ)
  | flush (env : PostEnv)

inductive MainInput where
  | proceed
  | create (ok : Bool)
  | shutdown (env : PostEnv)

inductive Label where
  /-- `handle_sigint` runs, in any thread. -/
  | signal
  | tick (now : ℚ)
  /-- `now` is the reading of `queue_enqueue`, if the step calls it. -/
  | collector (i : CollectorInput) (now : Option Timespec)
  | delivery (i : DeliveryInput)
  | main (i : MainInput)

namespace Process

/-- What the collector reads of the shared state is what is there. -/
def Sees (s : Process) : CollectorInput → Prop
  | .gStop set => set = s.gStop
  | .queueSize size => size = queueSize s.tracked.queue
  | .queueDropped count => count = queueDroppedCount s.tracked.queue
  | _ => True

instance (s : Process) (i : CollectorInput) : Decidable (s.Sees i) := by
  cases i <;> unfold Sees <;> infer_instance

/-- `queue_enqueue(q, json, strlen(json))`. -/
def enqueue (t : Tracked) (now : Option Timespec) (c : Call) : Option Tracked :=
  (c.event.json c.stamp).map fun json => t.enqueue (some (pointer json)) json.length now

def collectorStep (cfg : SyswatchConfig) (s : Process) (i : CollectorInput) (now : Option Timespec) :
    Option Process :=
  if s.Sees i then
    (Syswatch.collectorStep cfg s.collector i).bind fun next =>
      (next.2.foldlM (fun t c => enqueue t now c) s.tracked).map fun t =>
        { s with collector := next.1, tracked := t }
  else none

/-- The clock does not go back from one reading to the next. -/
def Clocked (clock : ℚ) (env : EmitEnv) (now : ℚ) : Prop :=
  let age := (env.ageNow.map Timespec.seconds).getD clock
  let start := (env.startNow.map Timespec.seconds).getD age
  clock ≤ age ∧ age ≤ start ∧ start ≤ now

instance (clock : ℚ) (env : EmitEnv) (now : ℚ) : Decidable (Clocked clock env now) :=
  inferInstanceAs (Decidable (_ ∧ _ ∧ _))

def note (s : Process) (origin : Origin) (ageNow : Option Timespec) (effects : List (Effect Handed)) :
    List Posted :=
  s.posts ++ (postsOf effects).map fun p =>
    ⟨p, origin, s.gStop, (ageNow.map Timespec.seconds).getD s.clock, s.output.batchStartedAt, ageNow⟩

/-- The entries the next `queue_dequeue_batch` copies, with their numbers. -/
def nextBatch (s : Process) : List Numbered :=
  (s.tracked.queue.view s.tracked.numbers).zip (queueDequeueBatch s.tracked.queue 1000).2.1

def deliveryStep (s : Process) : DeliveryPc → DeliveryInput → Option Process
  | .testStop, .proceed =>
    some { s with delivery := if s.gStop then .testSize else .dequeue }
  | .testSize, .proceed =>
    some { s with delivery := if queueSize s.tracked.queue > 0 then .dequeue else .finalFlush }
  | .dequeue, .proceed =>
    some { s with
      tracked := s.tracked.dequeueBatch 1000
      delivery := if s.nextBatch.length > 0 then .emit s.nextBatch else .pause }
  | .pause, .proceed => some { s with delivery := .testStop }
  | .emit (event :: pending), .emit env now =>
    if Clocked s.clock env now then
      let line := Handed.mk event ((env.startNow.map Timespec.seconds).getD now)
      let r := outputEmitEvent Handed.text env s.output (some line)
      some { s with
        clock := now
        delivery := .emit pending
        output := r.2.2
        emitted := s.emitted ++ [line]
        posts := s.note .emitting env.ageNow r.2.1 }
    else none
  | .emit [], .flush env =>
    let r := outputFlush Handed.text env s.output
    some { s with delivery := .testStop, output := r.2.2, posts := s.note .drained none r.2.1 }
  | .finalFlush, .flush env =>
    let r := outputFlush Handed.text env s.output
    some { s with delivery := .finished, output := r.2.2, posts := s.note .final none r.2.1 }
  | _, _ => none

def shutdownOutput (s : Process) (env : PostEnv) (next : MainPc) : Process :=
  let r := outputShutdown Handed.text env s.output
  { s with main := next, output := r.2, posts := s.note .shutdown none r.1 }

def mainStep (s : Process) : MainPc → MainInput → Option Process
  | .createDelivery, .create true => some { s with main := .joinCollector, delivery := .testStop }
  | .createDelivery, .create false => some { s with main := .failedStop }
  | .joinCollector, .proceed =>
    match s.collector.pc with
    | .finished => some { s with main := .setStop }
    | _ => none
  | .setStop, .proceed => some { s with gStop := true, main := .joinDelivery }
  | .joinDelivery, .proceed =>
    match s.delivery with
    | .finished => some { s with main := .shutdown }
    | _ => none
  | .shutdown, .shutdown env => some (s.shutdownOutput env .destroy)
  | .destroy, .proceed => some { s with main := .returned 0 }
  | .failedStop, .proceed => some { s with gStop := true, main := .failedJoin }
  | .failedJoin, .proceed =>
    match s.collector.pc with
    | .finished => some { s with main := .failedShutdown }
    | _ => none
  | .failedShutdown, .shutdown env => some (s.shutdownOutput env (.returned 6))
  | _, _ => none

def step (cfg : SyswatchConfig) (s : Process) : Label → Option Process
  | .signal => some { s with gStop := true }
  | .tick now => if s.clock ≤ now then some { s with clock := now } else none
  | .collector i now => s.collectorStep cfg i now
  | .delivery i => s.deliveryStep s.delivery i
  | .main i => s.mainStep s.main i

/-! ## What a step can do -/

/-- A step of the collector makes one call of `queue_enqueue` or none. -/
inductive Enqueues (now : Option Timespec) (t : Tracked) : List Call → Tracked → Prop
  | none : Enqueues now t [] t
  | one (c : Call) {json : Bytes} (h : c.event.json c.stamp = some json) :
    Enqueues now t [c] (t.enqueue (some (pointer json)) json.length now)

/-- A step of the delivery thread. -/
inductive DeliveryMove (s : Process) : DeliveryInput → Process → Prop
  | goOn (h : s.delivery = .testStop) (hg : s.gStop = false) :
    DeliveryMove s .proceed { s with delivery := .dequeue }
  | stopped (h : s.delivery = .testStop) (hg : s.gStop = true) :
    DeliveryMove s .proceed { s with delivery := .testSize }
  | nonempty (h : s.delivery = .testSize) (hq : 0 < queueSize s.tracked.queue) :
    DeliveryMove s .proceed { s with delivery := .dequeue }
  | leave (h : s.delivery = .testSize) (hq : ¬ 0 < queueSize s.tracked.queue) :
    DeliveryMove s .proceed { s with delivery := .finalFlush }
  | took (h : s.delivery = .dequeue) (hb : 0 < s.nextBatch.length) :
    DeliveryMove s .proceed
      { s with tracked := s.tracked.dequeueBatch 1000, delivery := .emit s.nextBatch }
  | idle (h : s.delivery = .dequeue) (hb : s.nextBatch = []) :
    DeliveryMove s .proceed { s with tracked := s.tracked.dequeueBatch 1000, delivery := .pause }
  | paused (h : s.delivery = .pause) : DeliveryMove s .proceed { s with delivery := .testStop }
  | emit (event : Numbered) (pending : List Numbered) (env : EmitEnv) (now : ℚ) (line : Handed)
      (h : s.delivery = .emit (event :: pending)) (hc : Clocked s.clock env now)
      (hl : line = ⟨event, (env.startNow.map Timespec.seconds).getD now⟩) :
    DeliveryMove s (.emit env now) { s with
      clock := now
      delivery := .emit pending
      output := (outputEmitEvent Handed.text env s.output (some line)).2.2
      emitted := s.emitted ++ [line]
      posts := s.note .emitting env.ageNow
        (outputEmitEvent Handed.text env s.output (some line)).2.1 }
  | drained (env : PostEnv) (h : s.delivery = .emit []) :
    DeliveryMove s (.flush env) { s with
      delivery := .testStop
      output := (outputFlush Handed.text env s.output).2.2
      posts := s.note .drained none (outputFlush Handed.text env s.output).2.1 }
  | final (env : PostEnv) (h : s.delivery = .finalFlush) :
    DeliveryMove s (.flush env) { s with
      delivery := .finished
      output := (outputFlush Handed.text env s.output).2.2
      posts := s.note .final none (outputFlush Handed.text env s.output).2.1 }

/-- A step of `main`. -/
inductive MainMove (s : Process) : Process → Prop
  | created (h : s.main = .createDelivery) :
    MainMove s { s with main := .joinCollector, delivery := .testStop }
  | failed (h : s.main = .createDelivery) : MainMove s { s with main := .failedStop }
  | joined (h : s.main = .joinCollector) (hc : s.collector.pc = .finished) :
    MainMove s { s with main := .setStop }
  | stop (h : s.main = .setStop) : MainMove s { s with gStop := true, main := .joinDelivery }
  | delivered (h : s.main = .joinDelivery) (hd : s.delivery = .finished) :
    MainMove s { s with main := .shutdown }
  | shutdown (env : PostEnv) (h : s.main = .shutdown) : MainMove s (s.shutdownOutput env .destroy)
  | destroyed (h : s.main = .destroy) : MainMove s { s with main := .returned 0 }
  | failedStop (h : s.main = .failedStop) :
    MainMove s { s with gStop := true, main := .failedJoin }
  | failedJoin (h : s.main = .failedJoin) (hc : s.collector.pc = .finished) :
    MainMove s { s with main := .failedShutdown }
  | failedShutdown (env : PostEnv) (h : s.main = .failedShutdown) :
    MainMove s (s.shutdownOutput env (.returned 6))

/-- Everything a step can do. -/
inductive Move (cfg : SyswatchConfig) (s : Process) : Label → Process → Prop
  | signal : Move cfg s .signal { s with gStop := true }
  | tick (now : ℚ) (h : s.clock ≤ now) : Move cfg s (.tick now) { s with clock := now }
  | collector {i : CollectorInput} {now : Option Timespec} {c : Collector} {calls : List Call}
      {t : Tracked} (hs : s.Sees i) (hm : CollectorMove cfg s.collector i c calls)
      (he : Enqueues now s.tracked calls t) :
    Move cfg s (.collector i now) { s with collector := c, tracked := t }
  | delivery {i : DeliveryInput} {s' : Process} (h : DeliveryMove s i s') : Move cfg s (.delivery i) s'
  | main {i : MainInput} {s' : Process} (h : MainMove s s') : Move cfg s (.main i) s'

theorem collectorMove_calls {cfg : SyswatchConfig} {c c' : Collector} {i : CollectorInput}
    {calls : List Call} (h : CollectorMove cfg c i c' calls) : calls.length ≤ 1 := by
  cases h <;> simp

theorem enqueues_of_calls {now : Option Timespec} {t t' : Tracked} {calls : List Call}
    (hone : calls.length ≤ 1) (h : calls.foldlM (fun t c => enqueue t now c) t = some t') :
    Enqueues now t calls t' := by
  match calls, hone, h with
  | [], _, h => cases h; exact .none
  | [call], _, h =>
    have h : enqueue t now call = some t' := by
      simpa [List.foldlM_cons] using h
    obtain ⟨json, hj, rfl⟩ := Option.map_eq_some_iff.mp h
    exact .one call hj

theorem collectorStep_cases {cfg : SyswatchConfig} {s s' : Process} {i : CollectorInput}
    {now : Option Timespec} (h : s.collectorStep cfg i now = some s') :
    Move cfg s (.collector i now) s' := by
  unfold collectorStep at h
  by_cases hs : s.Sees i
  · rw [if_pos hs] at h
    obtain ⟨⟨c, calls⟩, hc, h⟩ := Option.bind_eq_some_iff.mp h
    obtain ⟨t, ht, h⟩ := Option.map_eq_some_iff.mp h
    cases h
    have hm := Syswatch.collectorStep_cases hc
    exact .collector hs hm (enqueues_of_calls (collectorMove_calls hm) ht)
  · rw [if_neg hs] at h
    cases h

theorem deliveryStep_cases {s s' : Process} {i : DeliveryInput}
    (h : s.deliveryStep s.delivery i = some s') : DeliveryMove s i s' := by
  unfold deliveryStep at h
  split at h
  case h_1 hd =>
    cases h
    by_cases hg : s.gStop = true
    · rw [if_pos hg]; exact .stopped hd hg
    · rw [if_neg hg]; exact .goOn hd (Bool.not_eq_true _ ▸ hg)
  case h_2 hd =>
    cases h
    by_cases hq : queueSize s.tracked.queue > 0
    · rw [if_pos hq]; exact .nonempty hd hq
    · rw [if_neg hq]; exact .leave hd hq
  case h_3 hd =>
    cases h
    by_cases hb : s.nextBatch.length > 0
    · rw [if_pos hb]; exact .took hd hb
    · rw [if_neg hb]; exact .idle hd (List.length_eq_zero_iff.mp (Nat.eq_zero_of_not_pos hb))
  case h_4 hd => cases h; exact .paused hd
  case h_5 event pending env now hd =>
    by_cases hc : Clocked s.clock env now
    · rw [if_pos hc] at h; cases h; exact .emit event pending env now _ hd hc rfl
    · rw [if_neg hc] at h; cases h
  case h_6 env hd => cases h; exact .drained env hd
  case h_7 env hd => cases h; exact .final env hd
  case h_8 => cases h

theorem mainStep_cases {s s' : Process} {i : MainInput} (h : s.mainStep s.main i = some s') :
    MainMove s s' := by
  unfold mainStep at h
  split at h
  case h_1 hm => cases h; exact .created hm
  case h_2 hm => cases h; exact .failed hm
  case h_3 hm =>
    split at h
    · cases h; exact .joined hm ‹_›
    · cases h
  case h_4 hm => cases h; exact .stop hm
  case h_5 hm =>
    split at h
    · cases h; exact .delivered hm ‹_›
    · cases h
  case h_6 env hm => cases h; exact .shutdown env hm
  case h_7 hm => cases h; exact .destroyed hm
  case h_8 hm => cases h; exact .failedStop hm
  case h_9 hm =>
    split at h
    · cases h; exact .failedJoin hm ‹_›
    · cases h
  case h_10 env hm => cases h; exact .failedShutdown env hm
  case h_11 => cases h

theorem step_cases {cfg : SyswatchConfig} {s s' : Process} {l : Label}
    (h : step cfg s l = some s') : Move cfg s l s' := by
  cases l with
  | signal => cases h; exact .signal
  | tick now =>
    rw [step] at h
    by_cases hc : s.clock ≤ now
    · rw [if_pos hc] at h; cases h; exact .tick now hc
    · rw [if_neg hc] at h; cases h
  | collector i now => exact collectorStep_cases h
  | delivery i => exact .delivery (deliveryStep_cases h)
  | main i => exact .main (mainStep_cases h)

end Process

end Syswatch
