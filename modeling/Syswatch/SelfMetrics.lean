import Syswatch.CollectorGrammar
import Syswatch.DeviceListing
import Syswatch.Queue

/-! # The self-metrics of the collector

`events_emitted_total` goes up by five in every iteration, one for each metric
event and one for the internal event, whether the metric events were emitted or
not. `Tally` counts what the queue took instead. -/

namespace Syswatch.SelfMetrics
open Lib.CText Lib.Machine CollectorGrammar DeviceListing

/-! ## What is reported and what was accepted -/

/-- `queue_enqueue` takes the event. -/
def taken (c : Call) : Bool :=
  match c.event.json c.stamp with
  | none => false
  | some text => decide (Accepted text)

/-- The metric and internal events accepted in the iterations that are over and
in the one going on, and for every internal event the total it reports beside
the number accepted in the iterations before its own. -/
structure Tally where
  before : Nat
  current : Nat
  reports : List (UInt64 × Nat)

def Tally.add (t : Tally) (c : Call) : Tally :=
  match c.event with
  | .warmingUp => t
  | .ready => t
  | .internal m =>
    { before := t.before + t.current + (taken c).toNat
      current := 0
      reports := t.reports ++ [(m.eventsEmittedTotal, t.before)] }
  | _ => { t with current := t.current + (taken c).toNat }

def tally (calls : List Call) : Tally := calls.foldl Tally.add ⟨0, 0, []⟩

theorem tally_snoc (calls : List Call) (c : Call) :
    tally (calls ++ [c]) = (tally calls).add c := by simp [tally]

/-! ## The events an iteration leaves out -/

/-- How many of the four metric events an iteration does not emit, given the
reads before it: its collector is off, its read fails, or there is no earlier
success to compare with. -/
def missing (cfg : SyswatchConfig) (past : List Reads) (r : Reads) : Nat :=
  (if cfg.showCpu ∧ r.cpu.isSome ∧ past.any (·.cpu.isSome) then 0 else 1) +
    (if cfg.showMemory ∧ r.memory.isSome then 0 else 1) +
    (if cfg.showDisk ∧ r.disk.isSome ∧ past.any (·.disk.isSome) then 0 else 1) +
    (if cfg.showNetwork ∧ r.net.isSome ∧ past.any (·.net.isSome) then 0 else 1)

/-- The same for iteration `j` of a run; the first of the reads is the baseline. -/
def missedIn (cfg : SyswatchConfig) (reads : List Reads) (j : Nat) : Nat :=
  match reads[j + 1]? with
  | none => 0
  | some r => missing cfg (reads.take (j + 1)) r

def missedBefore (cfg : SyswatchConfig) (reads : List Reads) : Nat → Nat
  | 0 => 0
  | k + 1 => missedBefore cfg reads k + missedIn cfg reads k

theorem missedIn_snoc (cfg : SyswatchConfig) (reads : List Reads) (r : Reads) {j : Nat}
    (h : j + 1 < reads.length) : missedIn cfg (reads ++ [r]) j = missedIn cfg reads j := by
  rw [missedIn, missedIn, List.getElem?_append_left h, List.take_append_of_le_length (by omega)]

theorem missedBefore_snoc (cfg : SyswatchConfig) (reads : List Reads) (r : Reads) {k : Nat}
    (h : k + 1 ≤ reads.length) : missedBefore cfg (reads ++ [r]) k = missedBefore cfg reads k := by
  induction k with
  | zero => rfl
  | succ k ih => rw [missedBefore, missedBefore, ih (by omega), missedIn_snoc cfg reads r (by omega)]

theorem missedIn_last (cfg : SyswatchConfig) {reads : List Reads} (r : Reads) {k : Nat}
    (h : reads.length = k + 1) : missedIn cfg (reads ++ [r]) k = missing cfg reads r := by
  rw [missedIn, ← h, List.getElem?_concat_length, List.take_left]

/-- The metric events that are emitted and those that are not are four. -/
theorem metricEvents_missing {cfg : SyswatchConfig} (hi : 0 < cfg.intervalSec) (past : List Reads)
    (r : Reads) : (metricEvents (metricsAt cfg past r)).length + missing cfg past r = 4 := by
  have htypes := congrArg List.length (metricEvents_types hi past r)
  simp only [List.length_append, List.length_map, List.length_singleton, iterationTypes] at htypes
  unfold missing
  split_ifs at htypes ⊢ <;> simp only [List.length_nil, List.length_singleton] at htypes <;> omega

/-! ## Every metric event is accepted -/

/-- The event has a text, which the queue takes. -/
def Deliverable (e : Event) : Prop := ∀ st, taken ⟨st, e⟩ = true

theorem deliverable_of_json {e : Event} (h : ∀ st, ∃ text, e.json st = some text) :
    Deliverable e := by
  intro st
  obtain ⟨text, ht⟩ := h st
  simp only [taken, ht, decide_eq_true_eq]
  exact (accepted_iff text).mpr (Event.json_length ht)

theorem disk_deliverable {intervalSec : Int32} (hi : 0 < intervalSec) {prev curr : DiskSnapshot}
    {stats : DiskStats} (h : diskComputeStats intervalSec prev curr = some stats) :
    Deliverable (.disk stats) :=
  deliverable_of_json fun st => ⟨_, (disk_json st stats).trans
    (rateEvent_text diskEntryText st .disk (by decide) (diskEntries_short hi h))⟩

theorem network_deliverable {intervalSec : Int32} (hi : 0 < intervalSec) {prev curr : NetSnapshot}
    {stats : NetStats} (h : netComputeStats intervalSec prev curr = some stats) :
    Deliverable (.network stats) :=
  deliverable_of_json fun st => ⟨_, (network_json st stats).trans
    (rateEvent_text netEntryText st .network (by decide) (netEntries_short hi h))⟩

/-- One of the four metric events, with a text the queue takes. -/
def Countable (e : Event) : Prop :=
  e.eventType ∈ [EventType.cpu, .memory, .disk, .network] ∧ Deliverable e

theorem countable_of_mem {cfg : SyswatchConfig} (hi : 0 < cfg.intervalSec) {past : List Reads}
    {r : Reads} : ∀ e ∈ metricEvents (metricsAt cfg past r), Countable e := by
  intro e he
  simp only [metricEvents, List.mem_append, Option.mem_toList, Option.map_eq_some_iff] at he
  rcases he with ((⟨s, _, rfl⟩ | ⟨s, _, rfl⟩) | ⟨s, hs, rfl⟩) | ⟨s, hs, rfl⟩
  · exact ⟨by simp [Event.eventType], deliverable_of_json fun st => ⟨_, rfl⟩⟩
  · exact ⟨by simp [Event.eventType], deliverable_of_json fun st => ⟨_, rfl⟩⟩
  · obtain ⟨curr, _, hc⟩ := Option.bind_eq_some_iff.mp hs
    obtain ⟨prev, _, hp⟩ := Option.bind_eq_some_iff.mp hc
    exact ⟨by simp [Event.eventType], disk_deliverable hi hp⟩
  · obtain ⟨curr, _, hc⟩ := Option.bind_eq_some_iff.mp hs
    obtain ⟨prev, _, hp⟩ := Option.bind_eq_some_iff.mp hc
    exact ⟨by simp [Event.eventType], network_deliverable hi hp⟩

theorem Tally.add_metric (t : Tally) (st : Stamp) {e : Event} (he : Countable e) :
    t.add ⟨st, e⟩ = { t with current := t.current + 1 } := by
  have ht := he.2 st
  have hmetric := he.1
  cases e <;> simp [Event.eventType] at hmetric <;> simp [Tally.add, ht]

theorem Tally.add_internal (t : Tally) (st : Stamp) (m : InternalMetrics) :
    t.add ⟨st, .internal m⟩ =
      ⟨t.before + t.current + 1, 0, t.reports ++ [(m.eventsEmittedTotal, t.before)]⟩ := by
  have ht : taken ⟨st, .internal m⟩ = true := deliverable_of_json (fun st => ⟨_, rfl⟩) st
  simp [Tally.add, ht]

/-! ## Every run -/

/-- The metric events of the iteration going on that are still to come; `none`
outside of an iteration's events. -/
def toCome : CollectorPc → Option (List Event)
  | .emit _ pending => some pending
  | .dropped _ => some []
  | .internal _ => some []
  | _ => none

/-- What holds after every step: the tally and the missing events add up to
five for each iteration. -/
structure Tallied (cfg : SyswatchConfig) (l : CollectorLog) : Prop where
  counter : l.collector.internalMetrics.eventsEmittedTotal = UInt64.ofNat (5 * l.collector.rows)
  count : (tally l.calls).reports.length = l.collector.rows
  reports : ∀ k total accepted, (tally l.calls).reports[k]? = some (total, accepted) →
    total = UInt64.ofNat (5 * k) ∧ accepted + missedBefore cfg l.reads k = 5 * k
  before : (tally l.calls).before + missedBefore cfg l.reads l.collector.rows = 5 * l.collector.rows
  current : match toCome l.collector.pc with
    | some pending =>
      (tally l.calls).current + pending.length + missedIn cfg l.reads l.collector.rows = 4
    | none => (tally l.calls).current = 0
  pending : ∀ es ∈ toCome l.collector.pc, ∀ e ∈ es, Countable e

theorem start_tallied (cfg : SyswatchConfig) : Tallied cfg .start where
  counter := rfl
  count := rfl
  reports k total accepted h := by simp [tally, CollectorLog.start] at h
  before := rfl
  current := rfl
  pending es h := by cases h

/-- A step that counts nothing. -/
theorem Tallied.idle {cfg : SyswatchConfig} {l l' : CollectorLog} (h : Tallied cfg l)
    (hrows : l'.collector.rows = l.collector.rows)
    (hcounter : l'.collector.internalMetrics.eventsEmittedTotal =
      l.collector.internalMetrics.eventsEmittedTotal)
    (hreads : l'.reads = l.reads) (htally : tally l'.calls = tally l.calls)
    (hcome : toCome l'.collector.pc = toCome l.collector.pc) : Tallied cfg l' where
  counter := by rw [hcounter, hrows]; exact h.counter
  count := by rw [htally, hrows]; exact h.count
  reports := by rw [htally, hreads]; exact h.reports
  before := by rw [htally, hreads, hrows]; exact h.before
  current := by rw [htally, hreads, hrows, hcome]; exact h.current
  pending := by rw [hcome]; exact h.pending

/-- A read changes nothing about the iterations before it. -/
theorem Tallied.read {cfg : SyswatchConfig} {l : CollectorLog} (h : Tallied cfg l) (r : Reads)
    (hlen : 0 < l.collector.rows → l.collector.rows + 1 ≤ l.reads.length) :
    (∀ k total accepted, (tally l.calls).reports[k]? = some (total, accepted) →
      total = UInt64.ofNat (5 * k) ∧ accepted + missedBefore cfg (l.reads ++ [r]) k = 5 * k) ∧
    (tally l.calls).before + missedBefore cfg (l.reads ++ [r]) l.collector.rows =
      5 * l.collector.rows := by
  have hsame : ∀ k ≤ l.collector.rows,
      missedBefore cfg (l.reads ++ [r]) k = missedBefore cfg l.reads k := by
    intro k hk
    cases k with
    | zero => rfl
    | succ k => exact missedBefore_snoc cfg l.reads r (by have := hlen (by omega); omega)
  refine ⟨fun k total accepted hk => ?_, by rw [hsame _ le_rfl]; exact h.before⟩
  have hlt : k < l.collector.rows := by
    rw [← h.count]
    exact (List.getElem?_eq_some_iff.mp hk).1
  rw [hsame k hlt.le]
  exact h.reports k total accepted hk

theorem Tallied.collected {cfg : SyswatchConfig} (hi : 0 < cfg.intervalSec) {l : CollectorLog}
    (hl : Lawful cfg l) (h : Tallied cfg l) (r : Reads) (st : Stamp)
    (hpc : l.collector.pc = .collect) : Tallied cfg ⟨{ l.collector with
        pc := .emit st (metricEvents (collect cfg l.collector.samples r).1)
        samples := (collect cfg l.collector.samples r).2 },
      l.reads ++ [r], l.results ++ [(collect cfg l.collector.samples r).1], l.calls⟩ := by
  have hlen : l.reads.length = l.collector.rows + 1 := by rw [hl.count, hpc]; rfl
  have hcurrent := h.current
  rw [hpc] at hcurrent
  obtain ⟨hreports, hbefore⟩ := h.read r fun _ => hlen.ge
  rw [(hl.knows.collect r).1]
  have hmissing := metricEvents_missing hi l.reads r
  refine ⟨h.counter, h.count, hreports, hbefore, ?_, ?_⟩
  · have hzero : (tally l.calls).current = 0 := hcurrent
    simp only [toCome, missedIn_last cfg r hlen, hzero]
    omega
  · intro es hes
    cases hes
    exact countable_of_mem hi

theorem Tallied.emitted {cfg : SyswatchConfig} {l : CollectorLog} (h : Tallied cfg l) {st : Stamp}
    {e : Event} {pending : List Event} (hpc : l.collector.pc = .emit st (e :: pending)) :
    Tallied cfg ⟨{ l.collector with pc := .emit st pending }, l.reads, l.results,
      l.calls ++ [⟨st, e⟩]⟩ := by
  have hcurrent := h.current
  have hpending := h.pending (e :: pending) (by rw [hpc]; rfl)
  rw [hpc] at hcurrent
  have htally : tally (l.calls ++ [⟨st, e⟩]) =
      { tally l.calls with current := (tally l.calls).current + 1 } := by
    rw [tally_snoc, Tally.add_metric _ st (hpending e (by simp))]
  constructor <;> simp only [htally]
  · exact h.counter
  · exact h.count
  · exact h.reports
  · exact h.before
  · simp only [toCome, List.length_cons] at hcurrent ⊢
    omega
  · intro es hes e' he'
    cases hes
    exact hpending e' (by simp [he'])

/-- The internal event ends the iteration. -/
theorem Tallied.ended {cfg : SyswatchConfig} {l : CollectorLog} (h : Tallied cfg l) {st : Stamp}
    (hpc : l.collector.pc = .internal st) :
    Tallied cfg ⟨{ l.collector with
        pc := .test
        rows := l.collector.rows + 1
        internalMetrics := { l.collector.internalMetrics with
          eventsEmittedTotal := l.collector.internalMetrics.eventsEmittedTotal + 5 } },
      l.reads, l.results, l.calls ++ [⟨st, .internal l.collector.internalMetrics⟩]⟩ := by
  have hcurrent := h.current
  have hbefore := h.before
  rw [hpc] at hcurrent
  constructor <;> simp only [tally_snoc, Tally.add_internal]
  · rw [h.counter, Nat.mul_succ, UInt64.ofNat_add]
    rfl
  · rw [List.length_append, h.count, List.length_singleton]
  · intro k total accepted hk
    rcases Nat.lt_or_ge k l.collector.rows with hlt | hge
    · rw [List.getElem?_append_left (h.count ▸ hlt)] at hk
      exact h.reports k total accepted hk
    · rw [List.getElem?_append_right (h.count ▸ hge), List.getElem?_singleton] at hk
      split at hk
      · cases hk
        have hk : k = l.collector.rows := by have := h.count; omega
        rw [hk]
        exact ⟨h.counter, hbefore⟩
      · cases hk
  · simp only [toCome, missedBefore, List.length_nil] at hcurrent ⊢
    omega
  · trivial
  · intro es hes
    cases hes

theorem toCome_awake (c : Collector) : toCome c.awake = none := by
  unfold Collector.awake
  split <;> rfl

theorem step_tallied {cfg : SyswatchConfig} (hi : 0 < cfg.intervalSec) {l l' : CollectorLog}
    {i : CollectorInput} (hl : Lawful cfg l) (h : Tallied cfg l) (hstep : l.step cfg i = some l') :
    Tallied cfg l' := by
  obtain ⟨⟨c', calls⟩, hc, rfl⟩ := Option.map_eq_some_iff.mp hstep
  have hnil : ∀ {α : Type} (xs : List α), xs ++ [] = xs := fun xs => List.append_nil xs
  cases collectorStep_cases hc with
  | warmUp st hpc => exact h.idle rfl rfl (hnil _) (tally_snoc _ _) (by rw [hpc]; rfl)
  | baseline r hpc =>
    have hrows := hl.starting (.inr hpc)
    have hcurrent := h.current
    rw [hpc] at hcurrent
    obtain ⟨hreports, hbefore⟩ := h.read r fun hpos => by omega
    simp only [readsOf, resultsOf, hnil]
    exact ⟨h.counter, h.count, hreports, hbefore, hcurrent, by rintro es ⟨⟩⟩
  | goOn stop hpc hg => exact h.idle rfl rfl (hnil _) (by simp only [hnil]) (by rw [hpc]; rfl)
  | leave stop hpc hg => exact h.idle rfl rfl (hnil _) (by simp only [hnil]) (by rw [hpc]; rfl)
  | cutShort left hpc hl => exact h.idle rfl rfl (hnil _) (by simp only [hnil]) (by rw [hpc]; rfl)
  | slept hpc =>
    exact h.idle rfl rfl (hnil _) (by simp only [hnil]) (by rw [toCome_awake, hpc]; rfl)
  | stop hpc => exact h.idle rfl rfl (hnil _) (by simp only [hnil]) (by rw [hpc]; rfl)
  | resume hpc =>
    exact h.idle rfl rfl (hnil _) (by simp only [hnil]) (by rw [toCome_awake, hpc]; rfl)
  | ready st hpc => exact h.idle rfl rfl (hnil _) (tally_snoc _ _) (by rw [hpc]; rfl)
  | collect r st hpc => simpa [readsOf, resultsOf] using h.collected hi hl r st hpc
  | emit st e pending hpc => simpa [readsOf, resultsOf] using h.emitted hpc
  | depth st size hpc => exact h.idle rfl rfl (hnil _) (by simp only [hnil]) (by rw [hpc]; rfl)
  | dropped st count hpc => exact h.idle rfl rfl (hnil _) (by simp only [hnil]) (by rw [hpc]; rfl)
  | internal st hpc => simpa [readsOf, resultsOf] using h.ended hpc

theorem run_tallied {cfg : SyswatchConfig} (hi : 0 < cfg.intervalSec) {is : List CollectorInput}
    {l : CollectorLog} (h : run (CollectorLog.step cfg) .start is = some l) : Tallied cfg l := by
  refine (run_preserves (P := fun l => Lawful cfg l ∧ Tallied cfg l) h
    ⟨start_lawful cfg, start_tallied cfg⟩ fun s i t hs hstep => ?_).2
  exact ⟨step_lawful hi hs.1 hstep, step_tallied hi hs.1 hs.2 hstep⟩

/-- **The total is accurate exactly when no metric event is missing.** In
iteration `k` the internal event reports the number of metric and internal
events accepted in the iterations before, if and only if these iterations have
emitted all their metric events; once the 64-bit counter has wrapped, as many
must be missing as the counter has lost. -/
theorem emitted_total_accurate_iff {cfg : SyswatchConfig} (hi : 1 ≤ cfg.intervalSec)
    {is : List CollectorInput} {l : CollectorLog}
    (hrun : run (CollectorLog.step cfg) .start is = some l) {k : Nat} {total : UInt64}
    {accepted : Nat} (hk : (tally l.calls).reports[k]? = some (total, accepted)) :
    total.toNat = accepted ↔ missedBefore cfg l.reads k = 2 ^ 64 * (5 * k / 2 ^ 64) := by
  obtain ⟨rfl, hsum⟩ := (run_tallied (interval_pos hi) hrun).reports k total accepted hk
  rw [UInt64.toNat_ofNat']
  have hdiv := Nat.div_add_mod (5 * k) (2 ^ 64)
  omega

/-- A configuration that shows the processes and no metric. -/
def processesOnly : SyswatchConfig :=
  { initDefaultConfig with
    showCpu := false, showMemory := false, showDisk := false, showNetwork := false
    showProcesses := true }

def noReads : Reads := ⟨none, none, none, none⟩

/-- A start and `n` iterations. -/
def idleRun (n : Nat) : List CollectorInput :=
  [.stamp sampleStamp, .reads noReads, .gStop false, .slept 0, .stamp sampleStamp] ++
    (List.replicate n [.sample noReads sampleStamp, .queueSize 0, .queueDropped 0, .proceed,
      .gStop false, .slept 0]).flatten

theorem emitted_total_accurate_iff_example : ∃ l,
    run (CollectorLog.step processesOnly) .start (idleRun 2) = some l ∧
      ((5 : UInt64).toNat = 1 ↔ missedBefore processesOnly l.reads 1 = 2 ^ 64 * (5 * 1 / 2 ^ 64)) :=
  ⟨_, rfl, @emitted_total_accurate_iff processesOnly (by decide) (idleRun 2) _ rfl 1 5 1
    (by decide +kernel)⟩

/-- The second internal event reports five events when there was one. -/
theorem emitted_total_inflated : ∃ l total accepted,
    run (CollectorLog.step processesOnly) .start (idleRun 2) = some l ∧
      (tally l.calls).reports[1]? = some (total, accepted) ∧ total.toNat ≠ accepted :=
  ⟨_, 5, 1, rfl, by decide +kernel, by decide⟩

end Syswatch.SelfMetrics
