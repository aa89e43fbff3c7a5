import Syswatch.Events
import Syswatch.Lib.Machine
import Syswatch.Lib.Sampling

/-! # The collector thread (`main.c`)

One step for everything the thread does between two points at which it can
touch what it shares with the other threads: the flag `g_stop` and the queue.
What it reads there, and what the system gives it, is the input of the step. -/

namespace Syswatch
open Lib.CText Lib.Sampling Lib.Machine

/-- What the four readers would give in one iteration; `none` is a failure. -/
structure Reads where
  cpu : Option CpuSnapshot
  memory : Option MemoryStats
  disk : Option DiskSnapshot
  net : Option NetSnapshot

/-- `cpu_ptr`, `mem_ptr`, `disk_ptr` and `net_ptr`. -/
structure Metrics where
  cpu : Option CpuStats
  memory : Option MemoryStats
  disk : Option DiskStats
  net : Option NetStats

/-- The previous snapshots and the ready flags. -/
structure Samples where
  cpu : Sensor CpuSnapshot
  disk : Sensor DiskSnapshot
  net : Sensor NetSnapshot

/-- After the `memset` calls. -/
def Samples.zero : Samples where
  cpu := ⟨⟨⟨0, 0, 0, 0, 0, 0, 0, 0⟩, [], Nat.zero_le _⟩, false⟩
  disk := ⟨⟨[], Nat.zero_le _⟩, false⟩
  net := ⟨⟨[], Nat.zero_le _⟩, false⟩

/-- A reader is only called when its metric is shown. -/
def shown {α : Type} (enabled : Bool) (read : Option α) : Option α := if enabled then read else none

def cpuRead (cfg : SyswatchConfig) (r : Reads) : Option CpuSnapshot := shown cfg.showCpu r.cpu
def memoryRead (cfg : SyswatchConfig) (r : Reads) : Option MemoryStats := shown cfg.showMemory r.memory
def diskRead (cfg : SyswatchConfig) (r : Reads) : Option DiskSnapshot := shown cfg.showDisk r.disk
def netRead (cfg : SyswatchConfig) (r : Reads) : Option NetSnapshot := shown cfg.showNetwork r.net

/-- "Read baseline samples". -/
def readBaseline (cfg : SyswatchConfig) (s : Samples) (r : Reads) : Samples where
  cpu := s.cpu.baseline (cpuRead cfg r)
  disk := s.disk.baseline (diskRead cfg r)
  net := s.net.baseline (netRead cfg r)

variable [Lib.Rounding]

/-- "Collect metrics". -/
def collect (cfg : SyswatchConfig) (s : Samples) (r : Reads) : Metrics × Samples :=
  let cpu := s.cpu.sample cpuComputeStats (cpuRead cfg r)
  let disk := s.disk.sample (diskComputeStats cfg.intervalSec) (diskRead cfg r)
  let net := s.net.sample (netComputeStats cfg.intervalSec) (netRead cfg r)
  (⟨cpu.1, memoryRead cfg r, disk.1, net.1⟩, ⟨cpu.2, disk.2, net.2⟩)

/-- "Emit JSON events for each metric category", in this order. -/
def metricEvents (m : Metrics) : List Event :=
  (m.cpu.map Event.cpu).toList ++ (m.memory.map Event.memory).toList ++
    (m.disk.map Event.disk).toList ++ (m.net.map Event.network).toList

/-! ## The thread -/

inductive CollectorPc where
  | warmUp
  | baseline
  | test
  | sleep
  /-- The sleep was cut short; `g_stop` is read once more. -/
  | recheck
  | ready
  | collect
  | emit (st : Stamp) (pending : List Event)
  | dropped (st : Stamp)
  | internal (st : Stamp)
  | finished

structure Collector where
  pc : CollectorPc
  samples : Samples
  rows : Nat
  firstIteration : Bool
  internalMetrics : InternalMetrics

def Collector.start : Collector := ⟨.warmUp, .zero, 0, true, ⟨0, 0, 0⟩⟩

/-- What a step takes in. -/
inductive CollectorInput where
  | stamp (st : Stamp)
  | reads (r : Reads)
  | gStop (set : Bool)
  | slept (left : Nat)
  | sample (r : Reads) (st : Stamp)
  | proceed
  | queueSize (size : Int)
  | queueDropped (count : UInt64)

/-- One call of `queue_enqueue`. -/
structure Call where
  stamp : Stamp
  event : Event

/-- The guard of the loop. -/
def goesOn (cfg : SyswatchConfig) (rows : Nat) (gStop : Bool) : Bool :=
  !gStop && (cfg.iterations == 0 || (rows : Int) < cfg.iterations.toInt)

/-- Where the thread goes after its sleep. -/
def Collector.awake (c : Collector) : CollectorPc := if c.firstIteration then .ready else .collect

/-- One step, with the calls of `queue_enqueue` it makes. -/
def collectorStep (cfg : SyswatchConfig) (c : Collector) (i : CollectorInput) :
    Option (Collector × List Call) :=
  match c.pc, i with
  | .warmUp, .stamp st => some ({ c with pc := .baseline }, [⟨st, .warmingUp⟩])
  | .baseline, .reads r => some ({ c with pc := .test, samples := readBaseline cfg c.samples r }, [])
  | .test, .gStop stop =>
    some ({ c with pc := if goesOn cfg c.rows stop then .sleep else .finished }, [])
  | .sleep, .slept left => some ({ c with pc := if left ≠ 0 then .recheck else c.awake }, [])
  | .recheck, .gStop stop => some ({ c with pc := if stop then .finished else c.awake }, [])
  | .ready, .stamp st =>
    some ({ c with pc := .collect, firstIteration := false }, [⟨st, .ready⟩])
  | .collect, .sample r st =>
    let m := collect cfg c.samples r
    some ({ c with pc := .emit st (metricEvents m.1), samples := m.2 }, [])
  | .emit st (e :: pending), .proceed => some ({ c with pc := .emit st pending }, [⟨st, e⟩])
  | .emit st [], .queueSize size =>
    some ({ c with
      pc := .dropped st
      internalMetrics := { c.internalMetrics with bufferDepth := UInt64.ofInt size } }, [])
  | .dropped st, .queueDropped count =>
    some ({ c with
      pc := .internal st
      internalMetrics := { c.internalMetrics with eventsDroppedTotal := count } }, [])
  | .internal st, .proceed =>
    let emitted := c.internalMetrics.eventsEmittedTotal + 5
    some ({ c with
      pc := .test
      rows := c.rows + 1
      internalMetrics := { c.internalMetrics with eventsEmittedTotal := emitted } },
      [⟨st, .internal c.internalMetrics⟩])
  | _, _ => none

/-- Everything a step can do. -/
inductive CollectorMove (cfg : SyswatchConfig) (c : Collector) :
    CollectorInput → Collector → List Call → Prop
  | warmUp (st : Stamp) (h : c.pc = .warmUp) :
    CollectorMove cfg c (.stamp st) { c with pc := .baseline } [⟨st, .warmingUp⟩]
  | baseline (r : Reads) (h : c.pc = .baseline) :
    CollectorMove cfg c (.reads r) { c with pc := .test, samples := readBaseline cfg c.samples r } []
  | goOn (stop : Bool) (h : c.pc = .test) (hg : goesOn cfg c.rows stop = true) :
    CollectorMove cfg c (.gStop stop) { c with pc := .sleep } []
  | leave (stop : Bool) (h : c.pc = .test) (hg : goesOn cfg c.rows stop = false) :
    CollectorMove cfg c (.gStop stop) { c with pc := .finished } []
  | cutShort (left : Nat) (h : c.pc = .sleep) (hl : left ≠ 0) :
    CollectorMove cfg c (.slept left) { c with pc := .recheck } []
  | slept (h : c.pc = .sleep) : CollectorMove cfg c (.slept 0) { c with pc := c.awake } []
  | stop (h : c.pc = .recheck) : CollectorMove cfg c (.gStop true) { c with pc := .finished } []
  | resume (h : c.pc = .recheck) : CollectorMove cfg c (.gStop false) { c with pc := c.awake } []
  | ready (st : Stamp) (h : c.pc = .ready) :
    CollectorMove cfg c (.stamp st) { c with pc := .collect, firstIteration := false } [⟨st, .ready⟩]
  | collect (r : Reads) (st : Stamp) (h : c.pc = .collect) :
    CollectorMove cfg c (.sample r st) { c with
      pc := .emit st (metricEvents (collect cfg c.samples r).1)
      samples := (collect cfg c.samples r).2 } []
  | emit (st : Stamp) (e : Event) (pending : List Event) (h : c.pc = .emit st (e :: pending)) :
    CollectorMove cfg c .proceed { c with pc := .emit st pending } [⟨st, e⟩]
  | depth (st : Stamp) (size : Int) (h : c.pc = .emit st []) :
    CollectorMove cfg c (.queueSize size) { c with
      pc := .dropped st
      internalMetrics := { c.internalMetrics with bufferDepth := UInt64.ofInt size } } []
  | dropped (st : Stamp) (count : UInt64) (h : c.pc = .dropped st) :
    CollectorMove cfg c (.queueDropped count) { c with
      pc := .internal st
      internalMetrics := { c.internalMetrics with eventsDroppedTotal := count } } []
  | internal (st : Stamp) (h : c.pc = .internal st) :
    CollectorMove cfg c .proceed { c with
      pc := .test
      rows := c.rows + 1
      internalMetrics := { c.internalMetrics with
        eventsEmittedTotal := c.internalMetrics.eventsEmittedTotal + 5 } }
      [⟨st, .internal c.internalMetrics⟩]

theorem collectorStep_cases {cfg : SyswatchConfig} {c c' : Collector} {i : CollectorInput}
    {calls : List Call} (h : collectorStep cfg c i = some (c', calls)) :
    CollectorMove cfg c i c' calls := by
  unfold collectorStep at h
  split at h
  case h_1 st hpc => cases h; exact .warmUp st hpc
  case h_2 r hpc => cases h; exact .baseline r hpc
  case h_3 stop hpc =>
    cases hg : goesOn cfg c.rows stop
    · rw [hg] at h; cases h; exact .leave stop hpc hg
    · rw [hg] at h; cases h; exact .goOn stop hpc hg
  case h_4 left hpc =>
    by_cases hl : left = 0
    · subst hl; cases h; exact .slept hpc
    · rw [if_pos hl] at h; cases h; exact .cutShort left hpc hl
  case h_5 stop hpc =>
    cases stop
    · cases h; exact .resume hpc
    · cases h; exact .stop hpc
  case h_6 st hpc => cases h; exact .ready st hpc
  case h_7 r st hpc => cases h; exact .collect r st hpc
  case h_8 st e pending hpc => cases h; exact .emit st e pending hpc
  case h_9 st size hpc => cases h; exact .depth st size hpc
  case h_10 st count hpc => cases h; exact .dropped st count hpc
  case h_11 st hpc => cases h; exact .internal st hpc
  case h_12 => cases h

/-! ## Its history -/

/-- The thread with what it has read, computed and enqueued. The first of the
reads is the baseline, each later one belongs to an iteration. -/
structure CollectorLog where
  collector : Collector
  reads : List Reads
  results : List Metrics
  calls : List Call

def CollectorLog.start : CollectorLog := ⟨.start, [], [], []⟩

def readsOf : CollectorInput → List Reads
  | .reads r => [r]
  | .sample r _ => [r]
  | _ => []

def resultsOf (cfg : SyswatchConfig) (c : Collector) : CollectorInput → List Metrics
  | .sample r _ => [(collect cfg c.samples r).1]
  | _ => []

/-- A step of the thread, written down. -/
def CollectorLog.step (cfg : SyswatchConfig) (l : CollectorLog) (i : CollectorInput) :
    Option CollectorLog :=
  (collectorStep cfg l.collector i).map fun next =>
    { collector := next.1
      reads := l.reads ++ readsOf i
      results := l.results ++ resultsOf cfg l.collector i
      calls := l.calls ++ next.2 }

/-- Reads of a machine with one core, one disk and one interface, whose counters have
come to `n`. -/
def someReads (n : UInt64) : Reads where
  cpu := some ⟨⟨n, 0, 0, 3 * n, 0, 0, 0, 0⟩, [⟨n, 0, 0, 3 * n, 0, 0, 0, 0⟩],
    show 1 ≤ MAX_CORES by decide⟩
  memory := some ⟨8000, 4000, 1000, 500, 2000, 100, 100, 4000, 0⟩
  disk := some ⟨[⟨CString.ofBytes 32 (ascii "sda"), n, 2 * n⟩], show 1 ≤ MAX_DISKS by decide⟩
  net := some ⟨[⟨CString.ofBytes 32 (ascii "eth0"), 5 * n, n⟩], show 1 ≤ MAX_INTERFACES by decide⟩

end Syswatch
