import Syswatch.CollectorGrammar
import Syswatch.DeviceListing
import Syswatch.ProcessShutdown

/-! # The process goes on, and ends

No thread waits for another but `main` in its joins: the collector goes on
whatever the receiver does, and when nothing can go on `main` has returned. Once
`g_stop` is set only so many steps are left, so that the process ends. -/

namespace Syswatch.ProcessProgress
open Lib.CText Lib.Machine Lib.BoundedFifo QueueHistory Process ProcessShutdown CollectorGrammar
open DeviceListing

/-! ## What can be printed -/

/-- No array of `collector_thread` is too small for the event. -/
def Printable (e : Event) : Prop := ∀ st, (e.json st).isSome

theorem printable_fixed {e : Event} (hd : ∀ s, e ≠ .disk s) (hn : ∀ s, e ≠ .network s) :
    Printable e := by
  intro st
  cases e with
  | disk s => exact absurd rfl (hd s)
  | network s => exact absurd rfl (hn s)
  | _ => rfl

theorem printable_disk {intervalSec : Int32} (hi : 0 < intervalSec) {prev curr : DiskSnapshot}
    {stats : DiskStats} (h : diskComputeStats intervalSec prev curr = some stats) :
    Printable (.disk stats) := by
  intro st
  rw [disk_json, rateEvent_text diskEntryText st .disk (by decide) (diskEntries_short hi h)]
  rfl

theorem printable_network {intervalSec : Int32} (hi : 0 < intervalSec) {prev curr : NetSnapshot}
    {stats : NetStats} (h : netComputeStats intervalSec prev curr = some stats) :
    Printable (.network stats) := by
  intro st
  rw [network_json, rateEvent_text netEntryText st .network (by decide) (netEntries_short hi h)]
  rfl

theorem metricEvents_printable {cfg : SyswatchConfig} (hi : 0 < cfg.intervalSec) (samples : Samples)
    (r : Reads) : ∀ e ∈ metricEvents (collect cfg samples r).1, Printable e := by
  intro e he
  simp only [metricEvents, List.mem_append, Option.mem_toList, Option.map_eq_some_iff] at he
  rcases he with ((⟨s, -, rfl⟩ | ⟨s, -, rfl⟩) | ⟨s, hs, rfl⟩) | ⟨s, hs, rfl⟩
  · exact printable_fixed (fun _ h => by cases h) (fun _ h => by cases h)
  · exact printable_fixed (fun _ h => by cases h) (fun _ h => by cases h)
  · obtain ⟨prev, curr, -, h⟩ := Lib.Sampling.Sensor.sample_eq_some hs
    exact printable_disk hi h
  · obtain ⟨prev, curr, -, h⟩ := Lib.Sampling.Sensor.sample_eq_some hs
    exact printable_network hi h

/-! ## What holds in every run -/

/-- `main` runs alongside the delivery thread. -/
def Paired : MainPc → Bool
  | .joinCollector => true
  | .setStop => true
  | .joinDelivery => true
  | .shutdown => true
  | .destroy => true
  | _ => false

/-- The delivery thread does not exist, or not yet. -/
def Alone : MainPc → Bool
  | .createDelivery => true
  | .failedStop => true
  | .failedJoin => true
  | .failedShutdown => true
  | _ => false

/-- The events that wait in the collector. -/
def unsent : CollectorPc → List Event
  | .emit _ pending => pending
  | _ => []

structure Healthy (s : Process) : Prop where
  linked : Linked s
  printable : ∀ e ∈ unsent s.collector.pc, Printable e
  unsent : (unsent s.collector.pc).length ≤ 4
  pending : (pending s.delivery).length ≤ 1000
  paired : Paired s.main = true → s.delivery ≠ .absent
  alone : Alone s.main = true → s.delivery = .absent
  returned : ∀ rc, s.main = .returned rc →
    s.collector.pc = .finished ∧ (s.delivery = .finished ∨ s.delivery = .absent)

theorem start_healthy (memory : Nat → EventQueueEntry) (clock : ℚ) (output : OutputState Handed) :
    Healthy (.start memory clock output) where
  linked := start_linked memory clock output
  printable := List.forall_mem_nil _
  unsent := Nat.zero_le _
  pending := Nat.zero_le _
  paired := nofun
  alone _ := rfl
  returned := nofun

/-- The queue hands out its first entries. -/
theorem nextBatch_eq {s : Process} (h : Linked s) :
    s.nextBatch = s.tracked.live.take 1000 := by
  obtain ⟨lost, hl⟩ := h.queue
  have htaken := (dequeue_spec hl.inRange 1000).2.2.1
  exact List.append_cancel_left htaken

theorem collectorMove_unsent {cfg : SyswatchConfig} (hi : 0 < cfg.intervalSec) {c c' : Collector}
    {i : CollectorInput} {calls : List Call} (h : CollectorMove cfg c i c' calls)
    (hp : ∀ e ∈ unsent c.pc, Printable e) (hl : (unsent c.pc).length ≤ 4) :
    (∀ e ∈ unsent c'.pc, Printable e) ∧ (unsent c'.pc).length ≤ 4 := by
  have hnone : ∀ {pc : CollectorPc}, unsent pc = [] →
      (∀ e ∈ unsent pc, Printable e) ∧ (unsent pc).length ≤ 4 := by
    intro pc hpc
    rw [hpc]
    exact ⟨List.forall_mem_nil _, Nat.zero_le _⟩
  have hawake : unsent c.awake = [] := by
    unfold Collector.awake
    split <;> rfl
  cases h with
  | collect r st hpc => exact ⟨metricEvents_printable hi c.samples r, metricEvents_length _⟩
  | emit st e rest hpc =>
    rw [hpc] at hp hl
    exact ⟨fun e he => hp e (List.mem_cons_of_mem _ he), Nat.le_of_succ_le hl⟩
  | slept hpc => exact hnone hawake
  | resume hpc => exact hnone hawake
  | _ => exact hnone rfl

theorem deliveryMove_pending {s s' : Process} {i : DeliveryInput} (hl : Linked s)
    (h : DeliveryMove s i s') (hp : (pending s.delivery).length ≤ 1000) :
    s'.delivery ≠ .absent ∧ (pending s'.delivery).length ≤ 1000 := by
  cases h with
  | took hd hb =>
    refine ⟨nofun, ?_⟩
    rw [nextBatch_eq hl]
    exact List.length_take_le _ _
  | emit event rest env now line hd hc hline =>
    rw [hd] at hp
    exact ⟨nofun, Nat.le_of_succ_le hp⟩
  | _ => exact ⟨nofun, Nat.zero_le _⟩

theorem step_healthy {cfg : SyswatchConfig} (hi : 0 < cfg.intervalSec) {s s' : Process} {l : Label}
    (h : Healthy s) (hm : Move cfg s l s') : Healthy s' := by
  have hlinked := step_linked h.linked hm
  cases hm with
  | signal => exact { h with linked := hlinked }
  | tick now hc => exact { h with linked := hlinked }
  | collector hs hc he =>
    obtain ⟨hprintable, hunsent⟩ := collectorMove_unsent hi hc h.printable h.unsent
    exact { h with
      linked := hlinked
      printable := hprintable
      unsent := hunsent
      returned := fun rc hrc => absurd (h.returned rc hrc).1 (collectorMove_running hc) }
  | delivery hd =>
    obtain ⟨habsent, hfinished, -, hcollector, hmain⟩ := deliveryMove_frame hd
    obtain ⟨hpresent, hpending⟩ := deliveryMove_pending h.linked hd h.pending
    refine ⟨hlinked, hcollector ▸ h.printable, hcollector ▸ h.unsent, hpending, fun _ => hpresent,
      fun ha => absurd (h.alone (hmain ▸ ha)) habsent, fun rc hrc => ?_⟩
    rcases (h.returned rc (hmain ▸ hrc)).2 with hd | hd
    · exact absurd hd hfinished
    · exact absurd hd habsent
  | main hc =>
    obtain ⟨hbefore, hprintable, hunsent, hpending, hpaired, halone, -⟩ := h
    cases hc with
    | created hm => exact ⟨hlinked, hprintable, hunsent, Nat.zero_le _, nofun, nofun, nofun⟩
    | failed hm => exact ⟨hlinked, hprintable, hunsent, hpending, nofun, fun _ => halone (hm ▸ rfl), nofun⟩
    | joined hm hf =>
      exact ⟨hlinked, hprintable, hunsent, hpending, fun _ => hpaired (hm ▸ rfl), nofun, nofun⟩
    | stop hm =>
      exact ⟨hlinked, hprintable, hunsent, hpending, fun _ => hpaired (hm ▸ rfl), nofun, nofun⟩
    | delivered hm hf =>
      exact ⟨hlinked, hprintable, hunsent, hpending, fun _ => hpaired (hm ▸ rfl), nofun, nofun⟩
    | shutdown env hm =>
      exact ⟨hlinked, hprintable, hunsent, hpending, fun _ => hpaired (hm ▸ rfl), nofun, nofun⟩
    | destroyed hm =>
      refine ⟨hlinked, hprintable, hunsent, hpending, nofun, nofun, fun _ _ => ?_⟩
      exact ⟨hbefore.collector (hm ▸ rfl), .inl (hbefore.delivery (hm ▸ rfl))⟩
    | failedStop hm =>
      exact ⟨hlinked, hprintable, hunsent, hpending, nofun, fun _ => halone (hm ▸ rfl), nofun⟩
    | failedJoin hm hf =>
      exact ⟨hlinked, hprintable, hunsent, hpending, nofun, fun _ => halone (hm ▸ rfl), nofun⟩
    | failedShutdown env hm =>
      refine ⟨hlinked, hprintable, hunsent, hpending, nofun, nofun, fun _ _ => ?_⟩
      exact ⟨hbefore.collector (hm ▸ rfl), .inr (halone (hm ▸ rfl))⟩

theorem run_healthy {cfg : SyswatchConfig} (hi : 0 < cfg.intervalSec) {s₀ s : Process}
    {labels : List Label} (h₀ : Healthy s₀) (h : run (step cfg) s₀ labels = some s) : Healthy s :=
  run_preserves h h₀ fun _ _ _ hl hs => step_healthy hi hl (step_cases hs)

/-! ## Nothing is stuck -/

/-- The step of a thread, and not a signal or the passing of time. -/
def IsThread : Label → Bool
  | .signal => false
  | .tick _ => false
  | _ => true

/-- The thread that `main` waits for has ended. -/
def Joined (s : Process) : Prop :=
  (s.main = .joinCollector ∨ s.main = .failedJoin → s.collector.pc = .finished) ∧
    (s.main = .joinDelivery → s.delivery = .finished)

theorem enqueue_isSome {c : Call} (h : Printable c.event) (t : Tracked) (now : Option Timespec) :
    (Process.enqueue t now c).isSome := by
  obtain ⟨json, hj⟩ := Option.isSome_iff_exists.mp (h c.stamp)
  rw [Process.enqueue, hj]
  rfl

theorem collectorMove_printable {cfg : SyswatchConfig} {c c' : Collector} {i : CollectorInput}
    {calls : List Call} (h : CollectorMove cfg c i c' calls)
    (hp : ∀ e ∈ unsent c.pc, Printable e) : ∀ call ∈ calls, Printable call.event := by
  cases h with
  | warmUp st hpc => exact List.forall_mem_singleton.mpr (printable_fixed nofun nofun)
  | ready st hpc => exact List.forall_mem_singleton.mpr (printable_fixed nofun nofun)
  | internal st hpc => exact List.forall_mem_singleton.mpr (printable_fixed nofun nofun)
  | emit st e rest hpc =>
    rw [hpc] at hp
    exact List.forall_mem_singleton.mpr (hp e List.mem_cons_self)
  | _ => exact List.forall_mem_nil _

/-- The collector has a step on what it finds in the shared state. -/
theorem collectorStep_sees (cfg : SyswatchConfig) {s : Process} (hpc : s.collector.pc ≠ .finished) :
    ∃ i, s.Sees i ∧ (Syswatch.collectorStep cfg s.collector i).isSome := by
  unfold Syswatch.collectorStep
  cases hp : s.collector.pc with
  | warmUp => exact ⟨.stamp someStamp, trivial, rfl⟩
  | baseline => exact ⟨.reads noReads, trivial, rfl⟩
  | test => exact ⟨.gStop s.gStop, rfl, rfl⟩
  | sleep => exact ⟨.slept 0, trivial, rfl⟩
  | recheck => exact ⟨.gStop s.gStop, rfl, rfl⟩
  | ready => exact ⟨.stamp someStamp, trivial, rfl⟩
  | collect => exact ⟨.sample noReads someStamp, trivial, rfl⟩
  | emit st waiting =>
    cases waiting with
    | nil => exact ⟨.queueSize (queueSize s.tracked.queue), rfl, rfl⟩
    | cons e waiting => exact ⟨.proceed, trivial, rfl⟩
  | dropped st => exact ⟨.queueDropped (queueDroppedCount s.tracked.queue), rfl, rfl⟩
  | internal st => exact ⟨.proceed, trivial, rfl⟩
  | finished => exact absurd hp hpc

/-- **The collector is never blocked.** -/
theorem collector_enabled (cfg : SyswatchConfig) {s : Process} (h : Healthy s)
    (hpc : s.collector.pc ≠ .finished) : ∃ i s', step cfg s (.collector i none) = some s' := by
  obtain ⟨i, hs, hi⟩ := collectorStep_sees cfg hpc
  obtain ⟨⟨c, calls⟩, hc⟩ := Option.isSome_iff_exists.mp hi
  have hm := collectorStep_cases hc
  have hone := collectorMove_calls hm
  have hp := collectorMove_printable hm h.printable
  refine ⟨i, ?_⟩
  rw [step, Process.collectorStep, if_pos hs, hc, Option.bind_some]
  cases calls with
  | nil => exact ⟨_, rfl⟩
  | cons call rest =>
    obtain rfl : rest = [] := List.eq_nil_of_length_eq_zero (Nat.le_zero.mp (Nat.le_of_succ_le_succ hone))
    obtain ⟨t, ht⟩ := Option.isSome_iff_exists.mp
      (enqueue_isSome (hp call (List.mem_singleton_self _)) s.tracked none)
    rw [List.foldlM_cons, ht]
    exact ⟨_, rfl⟩

theorem delivery_enabled (cfg : SyswatchConfig) (s : Process) (ha : s.delivery ≠ .absent)
    (hf : s.delivery ≠ .finished) : ∃ i s', step cfg s (.delivery i) = some s' := by
  have hclock : Clocked s.clock ⟨none, quietEnv, none, true, true, quietEnv⟩ s.clock :=
    ⟨le_rfl, le_rfl, le_rfl⟩
  cases hd : s.delivery with
  | absent => exact absurd hd ha
  | finished => exact absurd hd hf
  | emit waiting =>
    cases waiting with
    | nil => exact ⟨.flush quietEnv, _, by rw [step, hd]; rfl⟩
    | cons event waiting =>
      refine ⟨.emit ⟨none, quietEnv, none, true, true, quietEnv⟩ s.clock, ?_⟩
      rw [step, hd, deliveryStep, if_pos hclock]
      exact ⟨_, rfl⟩
  | finalFlush => exact ⟨.flush quietEnv, _, by rw [step, hd]; rfl⟩
  | _ => exact ⟨.proceed, _, by rw [step, hd]; rfl⟩

theorem main_enabled (cfg : SyswatchConfig) {s : Process} (hj : Joined s)
    (hr : ∀ rc, s.main ≠ .returned rc) : ∃ i s', step cfg s (.main i) = some s' := by
  cases hm : s.main with
  | createDelivery => exact ⟨.create true, _, by rw [step, hm]; rfl⟩
  | joinCollector => exact ⟨.proceed, _, by rw [step, hm, mainStep, hj.1 (.inl hm)]⟩
  | joinDelivery => exact ⟨.proceed, _, by rw [step, hm, mainStep, hj.2 hm]⟩
  | failedJoin => exact ⟨.proceed, _, by rw [step, hm, mainStep, hj.1 (.inr hm)]⟩
  | shutdown => exact ⟨.shutdown quietEnv, _, by rw [step, hm]; rfl⟩
  | failedShutdown => exact ⟨.shutdown quietEnv, _, by rw [step, hm]; rfl⟩
  | returned rc => exact absurd hm (hr rc)
  | _ => exact ⟨.proceed, _, by rw [step, hm]; rfl⟩

/-- When no thread can go on, `main` has returned, and then none can. -/
theorem stuck_iff (cfg : SyswatchConfig) {s : Process} (h : Healthy s) :
    (∀ l, IsThread l = true → step cfg s l = none) ↔ ∃ rc, s.main = .returned rc := by
  constructor
  · intro hnone
    have hcollector : s.collector.pc = .finished := by
      by_contra hpc
      obtain ⟨i, s', hs⟩ := collector_enabled cfg h hpc
      rw [hnone _ rfl] at hs
      cases hs
    have hdelivery : s.delivery = .absent ∨ s.delivery = .finished := by
      by_contra hd
      rw [not_or] at hd
      obtain ⟨i, s', hs⟩ := delivery_enabled cfg s hd.1 hd.2
      rw [hnone _ rfl] at hs
      cases hs
    have hjoined : Joined s := by
      refine ⟨fun _ => hcollector, fun hm => ?_⟩
      exact hdelivery.resolve_left (h.paired (hm ▸ rfl))
    by_contra hr
    obtain ⟨i, s', hs⟩ := main_enabled cfg hjoined fun rc hrc => hr ⟨rc, hrc⟩
    rw [hnone _ rfl] at hs
    cases hs
  · rintro ⟨rc, hrc⟩ l hl
    obtain ⟨hcollector, hdelivery⟩ := h.returned rc hrc
    rw [Option.eq_none_iff_forall_ne_some]
    intro s' hs
    cases step_cases hs with
    | signal => cases hl
    | tick now hc => cases hl
    | collector hsees hc he => exact collectorMove_running hc hcollector
    | delivery hd =>
      obtain ⟨habsent, hfinished, -⟩ := deliveryMove_frame hd
      exact hdelivery.elim hfinished habsent
    | main hm => cases hm <;> simp_all

/-! ## How many steps are left

The measure falls at every step of a thread once `g_stop` is set. The collector
enqueues at most one event in a step, and an event in the queue costs less than a
step of the collector. -/

/-- The steps of the collector until it has seen `g_stop`. -/
def collectorLeft : CollectorPc → Nat
  | .warmUp => 3
  | .baseline => 2
  | .test => 1
  | .sleep => 12
  | .recheck => 11
  | .ready => 10
  | .collect => 9
  | .emit _ pending => 4 + pending.length
  | .dropped _ => 3
  | .internal _ => 2
  | .finished => 0

/-- Those of the delivery thread, with so many events in the queue. -/
def deliveryLeft (queued : Nat) : DeliveryPc → Nat
  | .absent => 5 * queued + 4
  | .testStop => 5 * queued + 3
  | .testSize => 5 * queued + 2
  | .dequeue => if queued = 0 then 5 else 5 * queued + 1
  | .pause => 5 * queued + 4
  | .emit pending => 5 * queued + 4 + pending.length
  | .finalFlush => 1
  | .finished => 0

def mainLeft : MainPc → Nat
  | .createDelivery => 6
  | .joinCollector => 5
  | .setStop => 4
  | .joinDelivery => 3
  | .shutdown => 2
  | .destroy => 1
  | .failedStop => 3
  | .failedJoin => 2
  | .failedShutdown => 1
  | .returned _ => 0

def stepsLeft (s : Process) : Nat :=
  6 * collectorLeft s.collector.pc + deliveryLeft s.tracked.live.length s.delivery + mainLeft s.main

theorem collectorLeft_awake (c : Collector) : collectorLeft c.awake ≤ 10 := by
  unfold Collector.awake
  split <;> simp [collectorLeft]

/-- The collector comes closer to its end at every step, as it finds `g_stop` set. -/
theorem collectorMove_left {cfg : SyswatchConfig} {s : Process} {c : Collector} {i : CollectorInput}
    {calls : List Call} (hs : s.Sees i) (h : CollectorMove cfg s.collector i c calls)
    (hstop : s.gStop = true) : collectorLeft c.pc < collectorLeft s.collector.pc := by
  have hawake := collectorLeft_awake s.collector
  cases h with
  | goOn stop hp hg =>
    have hset : stop = true := Eq.trans hs hstop
    rw [goesOn, hset] at hg
    cases hg
  | resume hp => cases (Eq.trans hs hstop : false = true)
  | slept hp =>
    rw [hp]
    exact lt_of_le_of_lt hawake (by decide)
  | collect r st hp =>
    have hlen := metricEvents_length (Syswatch.collect cfg s.collector.samples r).1
    simp only [hp, collectorLeft]
    omega
  | emit st e rest hp => simp [hp, collectorLeft]
  | _ => simp [*, collectorLeft]

theorem deliveryLeft_mono {m n : Nat} (h : m ≤ n + 1) (d : DeliveryPc) :
    deliveryLeft m d ≤ deliveryLeft n d + 5 := by
  cases d <;> simp only [deliveryLeft] <;> (try split) <;> (try split) <;> omega

theorem enqueues_live {now : Option Timespec} {t t' : Tracked} {calls : List Call}
    (hq : t.queue.InRange) (h : Enqueues now t calls t') :
    t'.live.length ≤ t.live.length + 1 := by
  cases h with
  | none => exact Nat.le_succ _
  | one c hj =>
    obtain ⟨h0, hm⟩ := Event.json_length hj
    rw [(enqueue_accepted hq _ now h0 hm).1, enqueue_live hq, push_eq, List.length_append,
      List.length_singleton]
    exact Nat.succ_le_succ (Lib.BoundedFifo.kept_sublist _ _).length_le

theorem live_length_pos {s : Process} (h : Linked s) :
    0 < queueSize s.tracked.queue ↔ 0 < s.tracked.live.length := by
  obtain ⟨lost, hl⟩ := h.queue
  have := hl.inRange.count.1
  rw [live_length, queueSize]
  omega

theorem deliveryMove_left {s s' : Process} {i : DeliveryInput} (hl : Linked s)
    (h : DeliveryMove s i s') (hstop : s.gStop = true) :
    deliveryLeft s'.tracked.live.length s'.delivery <
      deliveryLeft s.tracked.live.length s.delivery := by
  obtain ⟨lost, hlaw⟩ := hl.queue
  have hlive := (dequeue_spec hlaw.inRange 1000).2.2.2.1
  have hbatch := nextBatch_eq hl
  have hpos := live_length_pos hl
  cases h with
  | goOn hd hg =>
    rw [hstop] at hg
    cases hg
  | nonempty hd hq =>
    have hne := hpos.mp hq
    simp only [hd, deliveryLeft]
    rw [if_neg (by omega)]
    omega
  | took hd hb =>
    have hlen : s.nextBatch.length ≤ s.tracked.live.length ∧
        (s.tracked.dequeueBatch 1000).live.length =
          s.tracked.live.length - s.nextBatch.length := by
      have hmax : (1000 : Int).toNat = 1000 := rfl
      rw [hlive, hbatch, hmax, List.length_take, List.length_drop]
      omega
    simp only [hd, deliveryLeft, hlen.2]
    rw [if_neg (by omega)]
    omega
  | idle hd hb =>
    have hnil : s.tracked.live.length = 0 := by
      rw [hbatch, List.take_eq_nil_iff] at hb
      simp_all
    have hnext : (s.tracked.dequeueBatch 1000).live.length = 0 := by
      rw [hlive, List.length_drop, hnil, Nat.zero_sub]
    simp only [hd, deliveryLeft, hnil, hnext]
    decide
  | _ =>
    simp only [*, deliveryLeft, List.length_cons, List.length_nil]
    omega

theorem mainMove_left {s s' : Process} (h : Healthy s) (hm : MainMove s s') :
    deliveryLeft s'.tracked.live.length s'.delivery + mainLeft s'.main <
      deliveryLeft s.tracked.live.length s.delivery + mainLeft s.main := by
  cases hm with
  | created hc => simp only [hc, h.alone (hc ▸ rfl), deliveryLeft, mainLeft]; omega
  | _ => simp [*, mainLeft, Process.shutdownOutput]

/-- `g_stop` stays set. -/
theorem move_stopped {cfg : SyswatchConfig} {s s' : Process} {l : Label} (hm : Move cfg s l s')
    (hstop : s.gStop = true) : s'.gStop = true := by
  cases hm with
  | signal => rfl
  | tick now hc => exact hstop
  | collector hs hc he => exact hstop
  | delivery hd => exact (deliveryMove_frame hd).2.2.1.trans hstop
  | main hc => cases hc <;> first | rfl | exact hstop

theorem move_left {cfg : SyswatchConfig} {s s' : Process} {l : Label} (h : Healthy s)
    (hm : Move cfg s l s') (hstop : s.gStop = true) :
    stepsLeft s' + (if IsThread l then 1 else 0) ≤ stepsLeft s := by
  obtain ⟨lost, hl⟩ := h.linked.queue
  cases hm with
  | signal => exact le_rfl
  | tick now hc => exact le_rfl
  | @collector i now c calls t hs hc he =>
    have hfalls := collectorMove_left hs hc hstop
    have hqueued := deliveryLeft_mono (enqueues_live hl.inRange he) s.delivery
    simp only [stepsLeft, IsThread, if_true]
    omega
  | delivery hd =>
    have hfalls := deliveryMove_left h.linked hd hstop
    obtain ⟨-, -, -, hcollector, hmain⟩ := deliveryMove_frame hd
    simp only [stepsLeft, IsThread, if_true, hcollector, hmain]
    omega
  | main hc =>
    have hfalls := mainMove_left h hc
    have hcollector : s'.collector = s.collector := by cases hc <;> rfl
    simp only [stepsLeft, IsThread, if_true, hcollector]
    omega

theorem stepsLeft_le {s : Process} (h : Healthy s) : stepsLeft s ≤ 5 * MAX_QUEUE_DEPTH + 1082 := by
  obtain ⟨lost, hl⟩ := h.linked.queue
  have hlive : s.tracked.live.length ≤ MAX_QUEUE_DEPTH := by
    have := hl.inRange.count
    rw [live_length]
    omega
  have hc : collectorLeft s.collector.pc ≤ 12 := by
    have := h.unsent
    cases hp : s.collector.pc with
    | emit st waiting =>
      rw [hp] at this
      simp only [unsent] at this
      simp only [collectorLeft]
      omega
    | _ => simp [collectorLeft]
  have hd : deliveryLeft s.tracked.live.length s.delivery ≤ 5 * MAX_QUEUE_DEPTH + 1004 := by
    have := h.pending
    cases hp : s.delivery with
    | emit waiting =>
      rw [hp] at this
      simp only [pending] at this
      simp only [deliveryLeft]
      omega
    | dequeue => simp only [deliveryLeft]; split <;> omega
    | _ => simp only [deliveryLeft]; omega
  have hm : mainLeft s.main ≤ 6 := by cases s.main <;> simp [mainLeft]
  rw [stepsLeft]
  omega

/-! ## Every run -/

section Runs
variable {cfg : SyswatchConfig} {memory : Nat → EventQueueEntry} {clock : ℚ}
  {output : OutputState Handed} {labels : List Label} {s : Process}

/-- **The process ends.** From the moment at which `g_stop` is set, and however
the threads are interleaved, only so many steps of the threads follow: five for
each event that the queue can hold, and a thousand for the batch in hand. Where
they end `main` has returned. -/
theorem shutdown_bounded (hi : 1 ≤ cfg.intervalSec)
    (h : run (step cfg) (.start memory clock output) labels = some s) (hstop : s.gStop = true)
    {more : List Label} {t : Process} (hmore : run (step cfg) s more = some t) :
    more.countP IsThread ≤ 5 * MAX_QUEUE_DEPTH + 1082 ∧
      ((∀ l, IsThread l = true → step cfg t l = none) → ∃ rc, t.main = .returned rc) := by
  have hi := interval_pos hi
  have hs := run_healthy hi (start_healthy memory clock output) h
  have hcount := @run_countP_le _ _ (step cfg) (fun s => Healthy s ∧ s.gStop = true) IsThread stepsLeft
    (fun u l v hu hv => ⟨⟨step_healthy hi hu.1 (step_cases hv), move_stopped (step_cases hv) hu.2⟩,
      move_left hu.1 (step_cases hv) hu.2⟩) _ _ _ ⟨hs, hstop⟩ hmore
  have hle := stepsLeft_le hs
  exact ⟨by omega, (stuck_iff cfg (run_healthy hi hs hmore)).mp⟩

/-- The signal wakes the collector, and `main` joins both threads. -/
def returns : List Label := wakesUp ++ joins ++ [.main .proceed]

theorem shutdown_bounded_example :
    ∃ s t, run (step initDefaultConfig) begin untilDelivered = some s ∧
      run (step initDefaultConfig) s returns = some t ∧
      returns.countP IsThread ≤ 5 * MAX_QUEUE_DEPTH + 1082 := by
  have h : (run (step initDefaultConfig) begin
      (untilDelivered ++ returns)).isSome := by decide +kernel
  obtain ⟨t, ht⟩ := Option.isSome_iff_exists.mp h
  rw [run_append] at ht
  obtain ⟨s, hs, ht⟩ := Option.bind_eq_some_iff.mp ht
  have hstop : (run (step initDefaultConfig) begin untilDelivered).map Process.gStop = some true := by
    decide +kernel
  rw [hs] at hstop
  exact ⟨s, t, hs, ht, (shutdown_bounded (by decide) hs (Option.some.inj hstop) ht).1⟩

end Runs

end Syswatch.ProcessProgress
