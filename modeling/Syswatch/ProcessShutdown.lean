import Syswatch.Process

/-! # The queue at shutdown

The delivery thread leaves its loop when it finds `g_stop` set and the queue
empty. Nothing is left in the queue at `queue_destroy` exactly when the
collector enqueues nothing after that. -/

namespace Syswatch.ProcessShutdown
open Lib.CText Lib.Machine Lib.BoundedFifo QueueHistory Process

/-! ## Where the threads are -/

/-- No call of `queue_enqueue` follows once `g_stop` is set, unless from a
sleep that was not cut short. -/
def Quiet : CollectorPc → Bool
  | .baseline => true
  | .test => true
  | .sleep => true
  | .recheck => true
  | .finished => true
  | _ => false

/-- The delivery thread is behind its loop. -/
def Left : DeliveryPc → Bool
  | .finalFlush => true
  | .finished => true
  | _ => false

/-- It has read `g_stop` as set. -/
def Stopping : DeliveryPc → Bool
  | .testSize => true
  | .finalFlush => true
  | .finished => true
  | _ => false

def pending : DeliveryPc → List Numbered
  | .emit pending => pending
  | _ => []

def joinedCollector : MainPc → Bool
  | .setStop => true
  | .joinDelivery => true
  | .shutdown => true
  | .destroy => true
  | .failedShutdown => true
  | _ => false

def joinedDelivery : MainPc → Bool
  | .shutdown => true
  | .destroy => true
  | _ => false

/-- `main` has set `g_stop`. -/
def stopSet : MainPc → Bool
  | .joinDelivery => true
  | .shutdown => true
  | .destroy => true
  | .failedJoin => true
  | .failedShutdown => true
  | _ => false

/-- What holds in every run. -/
structure Linked (s : Process) : Prop where
  queue : ∃ lost, Lawful s.tracked lost
  taken : s.tracked.taken = s.emitted.map Handed.event ++ pending s.delivery
  stopping : Stopping s.delivery = true → s.gStop = true
  collector : joinedCollector s.main = true → s.collector.pc = .finished
  delivery : joinedDelivery s.main = true → s.delivery = .finished
  main : stopSet s.main = true → s.gStop = true
  absent : s.main = .createDelivery → s.delivery = .absent

theorem start_linked (memory : Nat → EventQueueEntry) (clock : ℚ) (output : OutputState Handed) :
    Linked (.start memory clock output) where
  queue := ⟨[], (fresh_follows memory).lawful (Ledger.Good.empty _)⟩
  taken := rfl
  stopping := nofun
  collector := nofun
  delivery := nofun
  main := nofun
  absent _ := rfl

/-- What the collector's calls do to the queue. -/
theorem enqueues_spec {now : Option Timespec} {t t' : Tracked} {calls : List Call}
    {lost : List (Nat × EventQueueEntry)} (hl : Lawful t lost) (h : Enqueues now t calls t') :
    (∃ lost', Lawful t' lost') ∧ t'.taken = t.taken ∧
      (0 < queueSize t.queue → 0 < queueSize t'.queue) ∧
      (calls ≠ [] → 0 < queueSize t'.queue) := by
  cases h with
  | none => exact ⟨⟨lost, hl⟩, rfl, id, fun h => absurd rfl h⟩
  | one c hj =>
    rename_i json
    obtain ⟨h0, hm⟩ := Event.json_length hj
    obtain ⟨more, hl'⟩ := hl.step (.enqueue (some (pointer json)) json.length now)
    have hpos : 0 < queueSize (t.enqueue (some (pointer json)) json.length now).queue := by
      rw [(enqueue_accepted hl.inRange (pointer json) now h0 hm).1]
      have := (dropOldest_spec hl.inRange).1.count.1
      simp only [queueSize, acceptedQueue]
      omega
    refine ⟨⟨_, hl'⟩, ?_, fun _ => hpos, fun _ => hpos⟩
    rw [(enqueue_accepted hl.inRange (pointer json) now h0 hm).1]

/-- The delivery thread moves while it runs, and leaves the others alone. -/
theorem deliveryMove_frame {s s' : Process} {i : DeliveryInput} (h : DeliveryMove s i s') :
    s.delivery ≠ .absent ∧ s.delivery ≠ .finished ∧ s'.gStop = s.gStop ∧
      s'.collector = s.collector ∧ s'.main = s.main := by
  cases h <;> simp [*]

theorem deliveryMove_queue {s s' : Process} {i : DeliveryInput} (h : DeliveryMove s i s') :
    s'.tracked = s.tracked ∨ s'.tracked = s.tracked.dequeueBatch 1000 := by
  cases h with
  | took hd hb => exact .inr rfl
  | idle hd hb => exact .inr rfl
  | _ => exact .inl rfl

/-- What is taken from the queue is emitted or still in the loop. -/
theorem deliveryMove_taken {s s' : Process} {i : DeliveryInput} (h : DeliveryMove s i s')
    (ht : s.tracked.taken = s.emitted.map Handed.event ++ pending s.delivery) :
    s'.tracked.taken = s'.emitted.map Handed.event ++ pending s'.delivery := by
  cases h with
  | took hd hb =>
    change s.tracked.taken ++ s.nextBatch = s.emitted.map Handed.event ++ s.nextBatch
    rw [ht, hd]
    simp [pending]
  | idle hd hb =>
    change s.tracked.taken ++ s.nextBatch = s.emitted.map Handed.event ++ []
    rw [ht, hd, hb]
    simp [pending]
  | emit event rest env now line hd hc hline =>
    change s.tracked.taken = (s.emitted ++ [line]).map Handed.event ++ rest
    rw [ht, hd, hline]
    simp [pending]
  | _ => simp [*, pending]

theorem deliveryMove_stopping {s s' : Process} {i : DeliveryInput} (h : DeliveryMove s i s')
    (hs : Stopping s.delivery = true → s.gStop = true) :
    Stopping s'.delivery = true → s.gStop = true := by
  intro hs'
  cases h with
  | stopped hd hg => exact hg
  | leave hd hq => exact hs (hd ▸ rfl)
  | final env hd => exact hs (hd ▸ rfl)
  | _ => cases hs'

theorem delivery_linked {s s' : Process} {i : DeliveryInput} (h : Linked s)
    (hm : DeliveryMove s i s') : Linked s' := by
  obtain ⟨habsent, hfinished, hstop, hcollector, hmain⟩ := deliveryMove_frame hm
  obtain ⟨lost, hl⟩ := h.queue
  have hqueue : ∃ lost, Lawful s'.tracked lost := by
    rcases deliveryMove_queue hm with ht | ht
    · exact ⟨lost, ht ▸ hl⟩
    · obtain ⟨more, hl'⟩ := hl.step (.dequeueBatch 1000)
      rw [ht]
      exact ⟨_, hl'⟩
  refine ⟨hqueue, deliveryMove_taken hm h.taken, ?_, ?_, ?_, ?_, ?_⟩
  · rw [hstop]; exact deliveryMove_stopping hm h.stopping
  · rw [hmain, hcollector]; exact h.collector
  · rw [hmain]; exact fun hj => absurd (h.delivery hj) hfinished
  · rw [hmain, hstop]; exact h.main
  · rw [hmain]; exact fun hc => absurd (h.absent hc) habsent

theorem main_linked {s s' : Process} (h : Linked s) (hm : MainMove s s') : Linked s' := by
  obtain ⟨hqueue, htaken, hstopping, hcollector, hdelivery, hmain, habsent⟩ := h
  cases hm with
  | created hc =>
    exact ⟨hqueue, by simpa [habsent hc, pending] using htaken, nofun, nofun, nofun, nofun, nofun⟩
  | failed hc => exact ⟨hqueue, htaken, hstopping, nofun, nofun, nofun, nofun⟩
  | joined hc hf => exact ⟨hqueue, htaken, hstopping, fun _ => hf, nofun, nofun, nofun⟩
  | stop hc =>
    exact ⟨hqueue, htaken, fun _ => rfl, fun _ => hcollector (hc ▸ rfl), nofun, fun _ => rfl, nofun⟩
  | delivered hc hf =>
    exact ⟨hqueue, htaken, hstopping, fun _ => hcollector (hc ▸ rfl), fun _ => hf,
      fun _ => hmain (hc ▸ rfl), nofun⟩
  | shutdown env hc =>
    exact ⟨hqueue, htaken, hstopping, fun _ => hcollector (hc ▸ rfl),
      fun _ => hdelivery (hc ▸ rfl), fun _ => hmain (hc ▸ rfl), nofun⟩
  | destroyed hc => exact ⟨hqueue, htaken, hstopping, nofun, nofun, nofun, nofun⟩
  | failedStop hc => exact ⟨hqueue, htaken, fun _ => rfl, nofun, nofun, fun _ => rfl, nofun⟩
  | failedJoin hc hf =>
    exact ⟨hqueue, htaken, hstopping, fun _ => hf, nofun, fun _ => hmain (hc ▸ rfl), nofun⟩
  | failedShutdown env hc => exact ⟨hqueue, htaken, hstopping, nofun, nofun, nofun, nofun⟩

/-- A finished collector does not move. -/
theorem collectorMove_running {cfg : SyswatchConfig} {c c' : Collector} {i : CollectorInput}
    {calls : List Call} (h : CollectorMove cfg c i c' calls) : c.pc ≠ .finished := by
  cases h <;> simp [*]

theorem step_linked {cfg : SyswatchConfig} {s s' : Process} {l : Label} (h : Linked s)
    (hm : Move cfg s l s') : Linked s' := by
  cases hm with
  | signal => exact { h with stopping := fun _ => rfl, main := fun _ => rfl }
  | tick now hc => exact { h with }
  | collector hs hc he =>
    obtain ⟨lost, hl⟩ := h.queue
    obtain ⟨hl', htaken, -, -⟩ := enqueues_spec hl he
    exact { h with
      queue := hl'
      taken := htaken.trans h.taken
      collector := fun hj => absurd (h.collector hj) (collectorMove_running hc) }
  | delivery hd => exact delivery_linked h hd
  | main hc => exact main_linked h hc

/-! ## When the delivery thread may leave its loop -/

/-- The delivery thread is about to leave its loop. -/
def Leaving (s : Process) : Bool :=
  match s.delivery with
  | .testSize => queueSize s.tracked.queue ≤ 0
  | _ => false

/-- The delivery thread leaves its loop only when the collector is quiet, and
from then on every sleep of the collector is cut short. -/
def Orderly (s : Process) : Label → Prop
  | .delivery _ => Leaving s = true → Quiet s.collector.pc = true
  | .collector (.slept left) _ => Left s.delivery = true → left ≠ 0
  | _ => True

instance (s : Process) (l : Label) : Decidable (Orderly s l) := by
  unfold Orderly
  split <;> infer_instance

/-- Behind the loop nothing more is enqueued. -/
def Settled (s : Process) : Prop :=
  Left s.delivery = true → queueSize s.tracked.queue = 0 ∧ Quiet s.collector.pc = true

/-- Behind the loop something is in the queue or will be. -/
def Stranded (s : Process) : Prop :=
  Left s.delivery = true ∧ (0 < queueSize s.tracked.queue ∨ Quiet s.collector.pc = false)

theorem left_stopping {d : DeliveryPc} (h : Left d = true) : Stopping d = true := by
  cases d <;> first | rfl | cases h

theorem quiet_awake (c : Collector) : Quiet c.awake = false := by
  unfold Collector.awake
  split <;> rfl

/-- A collector that is not quiet enqueues or stays so. -/
theorem collectorMove_owes {cfg : SyswatchConfig} {c c' : Collector} {i : CollectorInput}
    {calls : List Call} (h : CollectorMove cfg c i c' calls) (hq : Quiet c.pc = false) :
    calls ≠ [] ∨ Quiet c'.pc = false := by
  cases h with
  | warmUp st hp => exact .inl (by simp)
  | ready st hp => exact .inl (by simp)
  | emit st e rest hp => exact .inl (by simp)
  | internal st hp => exact .inl (by simp)
  | collect r st hp => exact .inr rfl
  | depth st size hp => exact .inr rfl
  | dropped st count hp => exact .inr rfl
  | slept hp => exact .inr (quiet_awake c)
  | resume hp => exact .inr (quiet_awake c)
  | _ => simp_all [Quiet]

/-- A quiet collector that sees `g_stop` stays quiet without a call, unless its
sleep runs out. -/
theorem collectorMove_quiet {cfg : SyswatchConfig} {s : Process} {c : Collector}
    {i : CollectorInput} {calls : List Call} (hs : s.Sees i)
    (h : CollectorMove cfg s.collector i c calls) (hstop : s.gStop = true)
    (hq : Quiet s.collector.pc = true) (hi : i ≠ .slept 0) : calls = [] ∧ Quiet c.pc = true := by
  cases h with
  | baseline r hp => exact ⟨rfl, rfl⟩
  | leave stop hp hg => exact ⟨rfl, rfl⟩
  | cutShort n hp hn => exact ⟨rfl, rfl⟩
  | stop hp => exact ⟨rfl, rfl⟩
  | goOn stop hp hg =>
    have hset : stop = true := Eq.trans hs hstop
    rw [goesOn, hset] at hg
    cases hg
  | resume hp => cases (Eq.trans hs hstop : false = true)
  | slept hp => exact absurd rfl hi
  | _ => simp_all [Quiet]

theorem mainMove_threads {s s' : Process} (h : Linked s) (hm : MainMove s s')
    (hd : Left s'.delivery = true ∨ Left s.delivery = true) :
    s'.delivery = s.delivery ∧ s'.tracked = s.tracked ∧ s'.collector = s.collector := by
  cases hm with
  | created hc =>
    have habsent := h.absent hc
    rcases hd with hd | hd
    · cases hd
    · rw [habsent] at hd; cases hd
  | _ => exact ⟨rfl, rfl, rfl⟩

theorem step_settled {cfg : SyswatchConfig} {s s' : Process} {l : Label} (hl : Linked s)
    (h : Settled s) (hm : Move cfg s l s') (ho : Orderly s l) : Settled s' := by
  intro hleft
  cases hm with
  | signal => exact h hleft
  | tick now hc => exact h hleft
  | @collector i now c calls t hs hc he =>
    obtain ⟨hzero, hquiet⟩ := h hleft
    have hi : i ≠ .slept 0 := by
      rintro rfl
      exact ho hleft rfl
    obtain ⟨rfl, hquiet'⟩ :=
      collectorMove_quiet hs hc (hl.stopping (left_stopping hleft)) hquiet hi
    cases he
    exact ⟨hzero, hquiet'⟩
  | delivery hd =>
    cases hd with
    | leave hp hq =>
      obtain ⟨lost, hlaw⟩ := hl.queue
      have hpos := hlaw.inRange.count.1
      have hle : queueSize s.tracked.queue ≤ 0 := not_lt.mp hq
      exact ⟨le_antisymm hle hpos, ho (by simp [Leaving, hp, hle])⟩
    | final env hp => exact h (by rw [hp]; rfl)
    | _ => cases hleft
  | main hc =>
    obtain ⟨hd, ht, hcol⟩ := mainMove_threads hl hc (.inl hleft)
    rw [ht, hcol]
    exact h (hd ▸ hleft)

theorem step_stranded {cfg : SyswatchConfig} {s s' : Process} {l : Label} (hl : Linked s)
    (h : Stranded s) (hm : Move cfg s l s') : Stranded s' := by
  obtain ⟨hleft, howes⟩ := h
  cases hm with
  | signal => exact ⟨hleft, howes⟩
  | tick now hc => exact ⟨hleft, howes⟩
  | collector hs hc he =>
    obtain ⟨lost, hlaw⟩ := hl.queue
    obtain ⟨-, -, hkeep, hcall⟩ := enqueues_spec hlaw he
    refine ⟨hleft, ?_⟩
    rcases howes with hpos | hquiet
    · exact .inl (hkeep hpos)
    · rcases collectorMove_owes hc hquiet with hcalls | hquiet'
      · exact .inl (hcall hcalls)
      · exact .inr hquiet'
  | delivery hd =>
    cases hd with
    | final env hp => exact ⟨rfl, howes⟩
    | _ => simp_all [Left]
  | main hc =>
    obtain ⟨hd, ht, hcol⟩ := mainMove_threads hl hc (.inr hleft)
    rw [Stranded, hd, ht, hcol]
    exact ⟨hleft, howes⟩

theorem stranded_of_not_orderly {cfg : SyswatchConfig} {s s' : Process} {l : Label}
    (hm : Move cfg s l s') (ho : ¬ Orderly s l) : Stranded s' := by
  cases hm with
  | signal => exact absurd trivial ho
  | tick now hc => exact absurd trivial ho
  | main hc => exact absurd trivial ho
  | delivery hd =>
    simp only [Orderly, Classical.not_imp, Bool.not_eq_true] at ho
    obtain ⟨hleaving, hquiet⟩ := ho
    cases hd with
    | leave hp hq => exact ⟨rfl, .inr hquiet⟩
    | nonempty hp hq =>
      simp only [Leaving, hp, decide_eq_true_eq] at hleaving
      exact absurd hq (not_lt.mpr hleaving)
    | _ => simp [Leaving, *] at hleaving
  | collector hs hc he =>
    cases hc with
    | slept hp =>
      simp only [Orderly, Classical.not_imp, ne_eq, not_not] at ho
      exact ⟨ho.1, .inr (quiet_awake _)⟩
    | cutShort n hp hn => exact absurd (fun _ => hn) ho
    | _ => exact absurd trivial ho

/-! ## Every run -/

variable {cfg : SyswatchConfig} {s₀ s : Process} {labels : List Label}

theorem run_linked (h₀ : Linked s₀) (h : run (step cfg) s₀ labels = some s) : Linked s :=
  run_preserves h h₀ fun _ _ _ hl hs => step_linked hl (step_cases hs)

/-- Every step of a run is orderly where it is taken. -/
def OrderlyRun (cfg : SyswatchConfig) (s₀ : Process) (labels : List Label) : Prop :=
  ∀ before l after t, labels = before ++ l :: after → run (step cfg) s₀ before = some t →
    Orderly t l

theorem run_settled (h₀ : Linked s₀) (hs : Settled s₀) (h : run (step cfg) s₀ labels = some s)
    (ho : OrderlyRun cfg s₀ labels) : Settled s := by
  refine run_invariant (P := fun ls t => OrderlyRun cfg s₀ ls → Settled t) (fun _ => hs) ?_ h ho
  intro ls t l u ht ih hu horderly
  have hprefix : OrderlyRun cfg s₀ ls := fun before l' after t' he =>
    horderly before l' (after ++ [l]) t' (by simp [he])
  exact step_settled (run_linked h₀ ht) (ih hprefix) (step_cases hu) (horderly ls l [] t rfl ht)

theorem run_stranded (h₀ : Linked s₀) (h : run (step cfg) s₀ labels = some s)
    (ho : ¬ OrderlyRun cfg s₀ labels) : Stranded s := by
  simp only [OrderlyRun, not_forall] at ho
  obtain ⟨before, l, after, t, rfl, ht, hbad⟩ := ho
  rw [run_append, ht, Option.bind_some, run_cons] at h
  obtain ⟨u, hu, h⟩ := Option.bind_eq_some_iff.mp h
  have hl : Linked u := step_linked (run_linked h₀ ht) (step_cases hu)
  have hfinal := run_preserves (P := fun s => Linked s ∧ Stranded s) h
    ⟨hl, stranded_of_not_orderly (step_cases hu) hbad⟩ fun _ _ _ hs hstep =>
      ⟨step_linked hs.1 (step_cases hstep), step_stranded hs.1 hs.2 (step_cases hstep)⟩
  exact hfinal.2

/-- Where the accepted events are when nothing is in the queue or in the loop. -/
theorem linked_accounts (h : Linked s) (hq : queueSize s.tracked.queue = 0)
    (hd : s.delivery = .finished) :
    ∃ lost : List Nat, queueDroppedCount s.tracked.queue = UInt64.ofNat lost.length ∧
      (s.emitted.map (fun e => e.event.1) ++ lost).Perm (List.range s.tracked.accepted.length) ∧
      ∀ e ∈ s.emitted, s.tracked.accepted[e.event.1]? = some e.event.2 := by
  obtain ⟨lost, hl⟩ := h.queue
  have hlive : s.tracked.live = [] := by
    rw [← List.length_eq_zero_iff, live_length, show s.tracked.queue.count = 0 from hq]
    rfl
  have htaken : s.tracked.taken = s.emitted.map Handed.event := by
    have := h.taken
    rw [hd] at this
    exact this.trans (List.append_nil _)
  have hplaces := hl.good.places
  have hnamed := hl.good.named
  simp only [Tracked.ledger, hlive, List.append_nil, htaken, Ledger.nums_append] at hplaces hnamed
  refine ⟨Ledger.nums lost, by rw [Ledger.nums, List.length_map]; exact hl.dropped, ?_, ?_⟩
  · simpa [Ledger.nums, Function.comp_def] using hplaces
  · intro e he
    exact hnamed e.event (List.mem_append_left _ (List.mem_map_of_mem he))

theorem orderlyRun_cons {l : Label} {ls : List Label} : OrderlyRun cfg s₀ (l :: ls) ↔
    Orderly s₀ l ∧ ∀ t, step cfg s₀ l = some t → OrderlyRun cfg t ls := by
  constructor
  · intro h
    refine ⟨h [] l ls s₀ rfl rfl, fun t ht before l' after u he hu => ?_⟩
    exact h (l :: before) l' after u (by rw [he]; rfl) (by rw [run_cons, ht]; exact hu)
  · rintro ⟨hl, hrest⟩ before l' after u he hu
    cases before with
    | nil =>
      cases he
      cases hu
      exact hl
    | cons _ before =>
      obtain ⟨rfl, hls⟩ := List.cons.inj he
      rw [run_cons] at hu
      obtain ⟨t, ht, hu⟩ := Option.bind_eq_some_iff.mp hu
      exact hrest t ht before l' after u hls hu

instance decidableOrderlyRun : ∀ (s : Process) (ls : List Label), Decidable (OrderlyRun cfg s ls)
  | _, [] => isTrue fun before _ _ _ he _ => by cases before <;> cases he
  | s, l :: ls =>
    match h : step cfg s l with
    | none => decidable_of_iff (Orderly s l) (by rw [orderlyRun_cons, h]; simp)
    | some t =>
      have := decidableOrderlyRun t ls
      decidable_of_iff (Orderly s l ∧ OrderlyRun cfg t ls) (by rw [orderlyRun_cons, h]; simp)

/-! ## A signal during the sleep -/

def blankEntry : EventQueueEntry := ⟨⟨List.replicate MAX_EVENT_SIZE 0, List.length_replicate⟩, 0, ⟨0, 0⟩⟩

def someStamp : Stamp :=
  ⟨CString.ofBytes 64 (ascii "2026-04-28T14:23:01.234+02:00"), CString.ofBytes 256 (ascii "myhost")⟩

def noReads : Reads := ⟨none, none, none, none⟩

def quietEnv : PostEnv := ⟨true, true, fun _ => .response 200⟩

def emitEnv : EmitEnv := ⟨some ⟨0, 0⟩, quietEnv, some ⟨0, 0⟩, true, true, quietEnv⟩

/-- The default configuration prints the events to `stdout`. -/
def begin : Process :=
  .start (fun _ => blankEntry) 0
    (outputInit Handed ⟨true, none, none, true, true⟩ (some initDefaultConfig) (.zero _)).2.2

/-- The collector enqueues its first event and falls asleep; the event is
delivered, a signal arrives, and the delivery thread finishes. -/
def untilDelivered : List Label :=
  [.main (.create true), .collector (.stamp someStamp) none, .collector (.reads noReads) none,
    .collector (.gStop false) none, .delivery .proceed, .delivery .proceed,
    .delivery (.emit emitEnv 0), .delivery (.flush quietEnv), .signal, .delivery .proceed,
    .delivery .proceed, .delivery (.flush quietEnv)]

def joins : List Label :=
  [.main .proceed, .main .proceed, .main .proceed, .main (.shutdown quietEnv)]

/-- The collector enqueues its two notices and the events of an iteration, and falls asleep. -/
def collectsOnce : List Label :=
  [.main (.create true), .collector (.stamp someStamp) none, .collector (.reads (someReads 0)) none,
    .collector (.gStop false) none, .collector (.slept 0) none, .collector (.stamp someStamp) none,
    .collector (.sample (someReads 1000) someStamp) none, .collector .proceed none,
    .collector .proceed none, .collector .proceed none, .collector .proceed none,
    .collector (.queueSize 6) none, .collector (.queueDropped 0) none, .collector .proceed none,
    .collector (.gStop false) none]

def emitsAt (seconds : Int) : Label :=
  .delivery (.emit ⟨some ⟨seconds, 0⟩, quietEnv, some ⟨seconds, 0⟩, true, true, quietEnv⟩ seconds)

/-- The seven events are delivered, all but the first of them three seconds later. -/
def deliversAll : List Label :=
  [.delivery .proceed, .delivery .proceed, emitsAt 0, emitsAt 3, emitsAt 3, emitsAt 3, emitsAt 3, emitsAt 3,
    emitsAt 3, .delivery (.flush quietEnv)]

/-- A signal arrives when nothing is left to do. -/
def stops : List Label :=
  [.signal, .delivery .proceed, .delivery .proceed, .delivery (.flush quietEnv)]

/-- The delivery thread handled the signal, and the collector sleeps to the end. -/
def sleepsOn : List Label :=
  [.collector (.slept 0) none, .collector (.stamp someStamp) none,
    .collector (.sample noReads someStamp) none, .collector (.queueSize 1) none,
    .collector (.queueDropped 0) none, .collector .proceed none, .collector (.gStop true) none]

/-- The collector handled it. -/
def wakesUp : List Label := [.collector (.slept 1) none, .collector (.gStop true) none]

/-- Seven events are delivered, and everything ends. -/
def measuredRun : List Label := collectsOnce ++ deliversAll ++ stops ++ wakesUp ++ joins

/-! ## Nothing is left -/

/-- **No accepted event is lost** when `main` reaches `queue_destroy`, that is,
the queue is empty and each of the accepted events was emitted or counted in
`dropped_count`, if and only if every step of the run was orderly. -/
theorem no_event_lost_iff {memory : Nat → EventQueueEntry} {clock : ℚ}
    {output : OutputState Handed} (h : run (step cfg) (.start memory clock output) labels = some s)
    (hd : s.main = .destroy) :
    (queueSize s.tracked.queue = 0 ∧
      ∃ lost : List Nat, queueDroppedCount s.tracked.queue = UInt64.ofNat lost.length ∧
        (s.emitted.map (fun e => e.event.1) ++ lost).Perm (List.range s.tracked.accepted.length) ∧
        ∀ e ∈ s.emitted, s.tracked.accepted[e.event.1]? = some e.event.2) ↔
    OrderlyRun cfg (.start memory clock output) labels := by
  have h₀ := start_linked memory clock output
  have hl := run_linked h₀ h
  have hfinished := hl.delivery (hd ▸ rfl)
  constructor
  · rintro ⟨hq, -⟩
    by_contra ho
    obtain ⟨-, hpos | hquiet⟩ := run_stranded h₀ h ho
    · omega
    · rw [hl.collector (hd ▸ rfl)] at hquiet
      cases hquiet
  · intro ho
    have hq := (run_settled h₀ nofun h ho (hfinished ▸ rfl)).1
    exact ⟨hq, linked_accounts hl hq hfinished⟩

/-- The sleep is cut short. -/
theorem no_event_lost_iff_example :
    ∃ s, run (step initDefaultConfig) begin (untilDelivered ++ wakesUp ++ joins) = some s ∧
      queueSize s.tracked.queue = 0 := by
  have h : (run (step initDefaultConfig) begin (untilDelivered ++ wakesUp ++ joins)).map
      Process.main = some .destroy := by decide +kernel
  obtain ⟨s, hs, hd⟩ := Option.map_eq_some_iff.mp h
  exact ⟨s, hs, ((no_event_lost_iff hs hd).mpr (by decide +kernel)).1⟩

/-- The sleep runs out: two events stay in the queue that `main` destroys. -/
theorem events_left_in_queue :
    ∃ s, run (step initDefaultConfig) begin (untilDelivered ++ sleepsOn ++ joins) = some s ∧
      s.main = .destroy ∧ queueSize s.tracked.queue = 2 ∧ s.tracked.accepted.length = 3 ∧
      s.emitted.map (fun e => e.event.1) = [0] ∧ queueDroppedCount s.tracked.queue = 0 := by
  have h : (run (step initDefaultConfig) begin (untilDelivered ++ sleepsOn ++ joins)).map
      (fun s => (s.main, queueSize s.tracked.queue, s.tracked.accepted.length,
        s.emitted.map (fun e => e.event.1), queueDroppedCount s.tracked.queue)) =
      some (.destroy, 2, 3, [0], 0) := by decide +kernel
  obtain ⟨s, hs, he⟩ := Option.map_eq_some_iff.mp h
  simp only [Prod.mk.injEq] at he
  exact ⟨s, hs, he⟩

end Syswatch.ProcessShutdown
