import Syswatch.Collector

/-! # What the collector enqueues

The results of every iteration are the comparisons with the latest earlier
success, and the calls of `queue_enqueue` follow one grammar: a warm-up event,
one ready event when there is an iteration, and the events of each iteration in
a fixed order. -/

namespace Syswatch.CollectorGrammar
open Lib.CText Lib.Sampling Lib.Machine

/-! ## The grammar -/

/-- The events of one iteration, given the reads before it. -/
def iterationTypes (cfg : SyswatchConfig) (past : List Reads) (r : Reads) : List EventType :=
  (if cfg.showCpu ∧ r.cpu.isSome ∧ past.any (·.cpu.isSome) then [.cpu] else []) ++
    (if cfg.showMemory ∧ r.memory.isSome then [.memory] else []) ++
    (if cfg.showDisk ∧ r.disk.isSome ∧ past.any (·.disk.isSome) then [.disk] else []) ++
    (if cfg.showNetwork ∧ r.net.isSome ∧ past.any (·.net.isSome) then [.network] else []) ++
    [.internal]

def iterations (cfg : SyswatchConfig) : List Reads → List Reads → List EventType
  | _, [] => []
  | past, r :: rs => iterationTypes cfg past r ++ iterations cfg (past ++ [r]) rs

/-- The events of a run with these reads, the first of them the baseline. -/
def expectedTypes (cfg : SyswatchConfig) (reads : List Reads) : List EventType :=
  .warmingUp :: (if reads.drop 1 = [] then [] else [.ready]) ++
    iterations cfg (reads.take 1) (reads.drop 1)

theorem iterations_snoc (cfg : SyswatchConfig) (past rs : List Reads) (r : Reads) :
    iterations cfg past (rs ++ [r]) = iterations cfg past rs ++ iterationTypes cfg (past ++ rs) r := by
  induction rs generalizing past with
  | nil => simp [iterations]
  | cons x rs ih => simp [iterations, ih]

theorem count_iterations (cfg : SyswatchConfig) (past rs : List Reads) :
    (iterations cfg past rs).count .internal = rs.length := by
  induction rs generalizing past with
  | nil => rfl
  | cons r rs ih =>
    have hone : (iterationTypes cfg past r).count .internal = 1 := by
      simp only [iterationTypes, List.count_append]
      split_ifs <;> rfl
    rw [iterations, List.count_append, hone, ih, List.length_cons, Nat.add_comm]

/-! ## What is computed -/

section Computed
variable [Lib.Rounding]

/-- The results of an iteration, given the reads before it. -/
def metricsAt (cfg : SyswatchConfig) (past : List Reads) (r : Reads) : Metrics where
  cpu := comparison cpuComputeStats (past.map (cpuRead cfg)) (cpuRead cfg r)
  memory := memoryRead cfg r
  disk := comparison (diskComputeStats cfg.intervalSec) (past.map (diskRead cfg)) (diskRead cfg r)
  net := comparison (netComputeStats cfg.intervalSec) (past.map (netRead cfg)) (netRead cfg r)

def metricsOf (cfg : SyswatchConfig) : List Reads → List Reads → List Metrics
  | _, [] => []
  | past, r :: rs => metricsAt cfg past r :: metricsOf cfg (past ++ [r]) rs

theorem metricsOf_snoc (cfg : SyswatchConfig) (past rs : List Reads) (r : Reads) :
    metricsOf cfg past (rs ++ [r]) = metricsOf cfg past rs ++ [metricsAt cfg (past ++ rs) r] := by
  induction rs generalizing past with
  | nil => simp [metricsOf]
  | cons x rs ih => simp [metricsOf, ih]

end Computed

/-- The sensors know the reads so far. -/
structure Knows (cfg : SyswatchConfig) (s : Samples) (past : List Reads) : Prop where
  cpu : s.cpu.Knows (past.map (cpuRead cfg))
  disk : s.disk.Knows (past.map (diskRead cfg))
  net : s.net.Knows (past.map (netRead cfg))

theorem knows_zero (cfg : SyswatchConfig) : Knows cfg .zero [] :=
  ⟨Sensor.knows_nil _, Sensor.knows_nil _, Sensor.knows_nil _⟩

theorem Knows.baseline {cfg : SyswatchConfig} {s : Samples} {past : List Reads}
    (h : Knows cfg s past) (r : Reads) : Knows cfg (readBaseline cfg s r) (past ++ [r]) := by
  constructor <;> rw [List.map_append]
  · exact h.cpu.baseline _
  · exact h.disk.baseline _
  · exact h.net.baseline _

theorem Knows.collect [Lib.Rounding] {cfg : SyswatchConfig} {s : Samples} {past : List Reads}
    (h : Knows cfg s past) (r : Reads) :
    (collect cfg s r).1 = metricsAt cfg past r ∧ Knows cfg (collect cfg s r).2 (past ++ [r]) := by
  obtain ⟨hc, hc'⟩ := h.cpu.sample cpuComputeStats (cpuRead cfg r)
  obtain ⟨hd, hd'⟩ := h.disk.sample (diskComputeStats cfg.intervalSec) (diskRead cfg r)
  obtain ⟨hn, hn'⟩ := h.net.sample (netComputeStats cfg.intervalSec) (netRead cfg r)
  refine ⟨?_, ?_⟩
  · simp only [Syswatch.collect, metricsAt, hc, hd, hn]
  · constructor <;> rw [List.map_append]
    · exact hc'
    · exact hd'
    · exact hn'

/-- There is a comparison when the read succeeded and an earlier one did. -/
theorem comparison_isSome {S T : Type} {compute : S → S → Option T}
    (htotal : ∀ p c, (compute p c).isSome) (past : List (Option S)) (read : Option S) :
    (comparison compute past read).isSome = (read.isSome && past.any Option.isSome) := by
  cases read with
  | none => rfl
  | some curr =>
    rw [comparison, Option.bind_some, ← latest_isSome]
    cases latest past with
    | none => rfl
    | some prev => simpa using htotal prev curr

theorem shown_isSome {α : Type} (enabled : Bool) (read : Option α) :
    (shown enabled read).isSome = (enabled && read.isSome) := by cases enabled <;> rfl

theorem any_shown {α : Type} (enabled : Bool) (f : Reads → Option α) (past : List Reads) :
    (past.map fun r => shown enabled (f r)).any Option.isSome =
      (enabled && past.any fun r => (f r).isSome) := by
  induction past with
  | nil => cases enabled <;> rfl
  | cons r past ih =>
    rw [List.map_cons, List.any_cons, List.any_cons, ih, shown_isSome]
    cases enabled <;> rfl

theorem sampled_isSome {S T : Type} {compute : S → S → Option T}
    (htotal : ∀ p c, (compute p c).isSome) (enabled : Bool) (f : Reads → Option S)
    (past : List Reads) (r : Reads) :
    (comparison compute (past.map fun r => shown enabled (f r)) (shown enabled (f r))).isSome =
      true ↔ enabled = true ∧ (f r).isSome = true ∧ past.any (fun r => (f r).isSome) = true := by
  rw [comparison_isSome htotal, any_shown, shown_isSome]
  simp only [Bool.and_eq_true]
  tauto

theorem toList_map_type {α : Type} (x : Option α) (f : α → Event) (t : EventType)
    (h : ∀ a, (f a).eventType = t) {p : Prop} [Decidable p] (hp : x.isSome = true ↔ p) :
    (x.map f).toList.map Event.eventType = if p then [t] else [] := by
  cases x with
  | none => rw [if_neg (by simp [← hp])]; rfl
  | some a => rw [if_pos (by simp [← hp])]; simp [h]

/-- The events of an iteration are those of the grammar. -/
theorem metricEvents_types [Lib.Rounding] {cfg : SyswatchConfig} (hi : 0 < cfg.intervalSec) (past : List Reads)
    (r : Reads) : (metricEvents (metricsAt cfg past r)).map Event.eventType ++ [.internal] =
      iterationTypes cfg past r := by
  have hdisk : ∀ p c, (diskComputeStats cfg.intervalSec p c).isSome := fun p c => by
    obtain ⟨stats, hs, _⟩ := diskComputeStats_eq hi p c
    simp [hs]
  have hnet : ∀ p c, (netComputeStats cfg.intervalSec p c).isSome := fun p c => by
    obtain ⟨stats, hs, _⟩ := netComputeStats_eq hi p c
    simp [hs]
  have hcpu : ∀ p c, (cpuComputeStats p c).isSome := fun p c => rfl
  simp only [metricEvents, metricsAt, iterationTypes, List.map_append]
  rw [toList_map_type _ Event.cpu .cpu (fun _ => rfl)
      (p := cfg.showCpu ∧ r.cpu.isSome ∧ past.any (·.cpu.isSome)),
    toList_map_type _ Event.memory .memory (fun _ => rfl)
      (p := cfg.showMemory ∧ r.memory.isSome),
    toList_map_type _ Event.disk .disk (fun _ => rfl)
      (p := cfg.showDisk ∧ r.disk.isSome ∧ past.any (·.disk.isSome)),
    toList_map_type _ Event.network .network (fun _ => rfl)
      (p := cfg.showNetwork ∧ r.net.isSome ∧ past.any (·.net.isSome))]
  · exact sampled_isSome hnet cfg.showNetwork Reads.net past r
  · exact sampled_isSome hdisk cfg.showDisk Reads.disk past r
  · simp only [memoryRead, shown_isSome, Bool.and_eq_true]
  · exact sampled_isSome hcpu cfg.showCpu Reads.cpu past r

/-! ## Every run -/

/-- The events the thread is still going to emit before its next test. -/
def owed : CollectorPc → List EventType
  | .warmUp => [.warmingUp]
  | .emit _ pending => pending.map Event.eventType ++ [.internal]
  | .dropped _ => [.internal]
  | .internal _ => [.internal]
  | _ => []

/-- The reads there have been at a program counter, with so many rows. -/
def readsAt (rows : Nat) : CollectorPc → Nat
  | .warmUp => 0
  | .baseline => 0
  | .emit _ _ => rows + 2
  | .dropped _ => rows + 2
  | .internal _ => rows + 2
  | _ => rows + 1

section Rounded
variable [Lib.Rounding]

/-- What holds after every step: the events enqueued and owed are those of the
grammar, and the flag says whether there has been an iteration. -/
structure Lawful (cfg : SyswatchConfig) (l : CollectorLog) : Prop where
  knows : Knows cfg l.collector.samples l.reads
  results : l.results = metricsOf cfg (l.reads.take 1) (l.reads.drop 1)
  count : l.reads.length = readsAt l.collector.rows l.collector.pc
  starting : l.collector.pc = .warmUp ∨ l.collector.pc = .baseline → l.collector.rows = 0
  first : l.collector.firstIteration = true → l.reads.length ≤ 1
  entered : l.collector.pc = .ready → l.collector.firstIteration = true
  collecting : l.collector.pc = .collect → l.collector.firstIteration = false
  later : l.collector.firstIteration = false → l.collector.pc = .collect ∨ 2 ≤ l.reads.length
  types : l.calls.map (fun c => c.event.eventType) ++ owed l.collector.pc =
    .warmingUp :: (if l.collector.firstIteration then [] else [.ready]) ++
      iterations cfg (l.reads.take 1) (l.reads.drop 1)

theorem start_lawful (cfg : SyswatchConfig) : Lawful cfg .start where
  knows := knows_zero cfg
  results := rfl
  count := rfl
  starting _ := rfl
  first _ := Nat.zero_le _
  entered h := by cases h
  collecting h := by cases h
  later h := by cases h
  types := rfl

omit [Lib.Rounding] in
theorem append_sample {reads : List Reads} (h : reads ≠ []) (r : Reads) :
    (reads ++ [r]).take 1 = reads.take 1 ∧ (reads ++ [r]).drop 1 = reads.drop 1 ++ [r] ∧
      reads.take 1 ++ reads.drop 1 = reads := by
  obtain ⟨b, its, rfl⟩ := List.exists_cons_of_ne_nil h
  simp

/-- A step that reads nothing pays what it enqueues from what is owed. -/
theorem Lawful.move {cfg : SyswatchConfig} {l l' : CollectorLog} (h : Lawful cfg l)
    (pc : CollectorPc) {rows : Nat} {m : InternalMetrics} {calls : List Call}
    (hc : l'.collector = { l.collector with pc := pc, rows := rows, internalMetrics := m })
    (hreads : l'.reads = l.reads) (hresults : l'.results = l.results)
    (hcalls : l'.calls = l.calls ++ calls)
    (hcount : readsAt rows pc = readsAt l.collector.rows l.collector.pc)
    (howed : calls.map (fun c => c.event.eventType) ++ owed pc = owed l.collector.pc)
    (hstart : pc = .warmUp ∨ pc = .baseline → rows = 0)
    (hready : pc = .ready → l.collector.firstIteration = true)
    (hcollect : pc = .collect → l.collector.firstIteration = false)
    (hleft : l.collector.pc ≠ .collect) : Lawful cfg l' where
  knows := by rw [hc, hreads]; exact h.knows
  results := by rw [hresults, hreads]; exact h.results
  count := by rw [hreads, hc]; exact h.count.trans hcount.symm
  starting := by rw [hc]; exact hstart
  first := by rw [hc, hreads]; exact h.first
  entered := by rw [hc]; exact hready
  collecting := by rw [hc]; exact hcollect
  later := by
    rw [hc, hreads]
    exact fun hf => .inr ((h.later hf).resolve_left hleft)
  types := by
    rw [hcalls, hreads, hc, List.map_append, List.append_assoc, howed]
    exact h.types

/-- Waking up leads into the iteration. -/
theorem Lawful.wake {cfg : SyswatchConfig} {l l' : CollectorLog} (h : Lawful cfg l)
    (hpc : l.collector.pc = .sleep ∨ l.collector.pc = .recheck)
    (hc : l'.collector = { l.collector with pc := l.collector.awake })
    (hreads : l'.reads = l.reads) (hresults : l'.results = l.results)
    (hcalls : l'.calls = l.calls ++ []) : Lawful cfg l' := by
  have hawake : l.collector.awake = .ready ∧ l.collector.firstIteration = true ∨
      l.collector.awake = .collect ∧ l.collector.firstIteration = false := by
    unfold Collector.awake
    cases l.collector.firstIteration <;> simp
  have hsame : readsAt l.collector.rows l.collector.awake =
      readsAt l.collector.rows l.collector.pc ∧
        owed l.collector.awake = owed l.collector.pc := by
    rcases hawake with ⟨ha, _⟩ | ⟨ha, _⟩ <;> rcases hpc with hpc | hpc <;> rw [ha, hpc] <;>
      exact ⟨rfl, rfl⟩
  refine h.move _ (m := l.collector.internalMetrics) hc hreads hresults hcalls hsame.1 hsame.2 ?_ ?_
    ?_ ?_
  · rcases hawake with ⟨ha, _⟩ | ⟨ha, _⟩ <;> rw [ha] <;> simp
  · rcases hawake with ⟨_, hf⟩ | ⟨ha, _⟩
    · exact fun _ => hf
    · rw [ha]; simp
  · rcases hawake with ⟨ha, _⟩ | ⟨_, hf⟩
    · rw [ha]; simp
    · exact fun _ => hf
  · rcases hpc with hpc | hpc <;> rw [hpc] <;> simp

/-- The baseline is the first read. -/
theorem Lawful.readBaseline {cfg : SyswatchConfig} {l : CollectorLog} (h : Lawful cfg l) (r : Reads)
    (hpc : l.collector.pc = .baseline) :
    Lawful cfg ⟨{ l.collector with pc := .test, samples := readBaseline cfg l.collector.samples r },
      l.reads ++ [r], l.results, l.calls⟩ := by
  have hreads : l.reads = [] := List.length_eq_zero_iff.mp (by rw [h.count, hpc]; rfl)
  have ht := h.types
  rw [hpc, hreads] at ht
  exact {
    knows := h.knows.baseline r
    results := by rw [h.results, hreads]; rfl
    count := by rw [hreads, show readsAt l.collector.rows .test = l.collector.rows + 1 from rfl,
      h.starting (.inr hpc)]; rfl
    starting := by simp
    first := fun _ => by rw [hreads]; exact le_rfl
    entered := by simp
    collecting := by simp
    later := fun hf => by
      rcases h.later hf with hp | hlen
      · rw [hpc] at hp; cases hp
      · rw [hreads] at hlen; cases hlen
    types := by rw [hreads]; exact ht }

theorem Lawful.readySent {cfg : SyswatchConfig} {l : CollectorLog} (h : Lawful cfg l) (st : Stamp)
    (hpc : l.collector.pc = .ready) :
    Lawful cfg ⟨{ l.collector with pc := .collect, firstIteration := false },
      l.reads, l.results, l.calls ++ [⟨st, .ready⟩]⟩ := by
  have hfirst := h.entered hpc
  have hnone : l.reads.drop 1 = [] := List.drop_eq_nil_of_le (h.first hfirst)
  have ht := h.types
  rw [hpc, hfirst, hnone] at ht
  exact {
    knows := h.knows
    results := h.results
    count := by rw [h.count, hpc]; rfl
    starting := by simp
    first := by simp
    entered := by simp
    collecting := fun _ => rfl
    later := fun _ => .inl rfl
    types := by
      simp only [owed, iterations, List.append_nil, if_true] at ht
      rw [List.map_append, ht, hnone]
      rfl }

/-- The events of an iteration are owed once its reads are there. -/
theorem Lawful.collected {cfg : SyswatchConfig} (hi : 0 < cfg.intervalSec) {l : CollectorLog}
    (h : Lawful cfg l) (r : Reads) (st : Stamp) (hpc : l.collector.pc = .collect) :
    Lawful cfg ⟨{ l.collector with
        pc := .emit st (metricEvents (collect cfg l.collector.samples r).1)
        samples := (collect cfg l.collector.samples r).2 },
      l.reads ++ [r], l.results ++ [(collect cfg l.collector.samples r).1], l.calls⟩ := by
  have hne : l.reads ≠ [] := List.ne_nil_of_length_pos (by rw [h.count, hpc]; exact Nat.succ_pos _)
  have hfirst := h.collecting hpc
  obtain ⟨htake, hdrop, hall⟩ := append_sample hne r
  obtain ⟨hm, hk⟩ := h.knows.collect r
  have hlen : 2 ≤ (l.reads ++ [r]).length := by
    have := List.length_pos_iff.mpr hne
    rw [List.length_append, List.length_singleton]
    omega
  have ht := h.types
  rw [hpc, show owed .collect = [] from rfl, List.append_nil] at ht
  exact {
    knows := hk
    results := by rw [htake, hdrop, metricsOf_snoc, hall, ← h.results, hm]
    count := by
      rw [List.length_append, h.count, hpc]
      rfl
    starting := by simp
    first := by simp [hfirst]
    entered := by simp
    collecting := by simp
    later := fun _ => .inr hlen
    types := by
      simp only [owed]
      rw [hm, metricEvents_types hi, ht, htake, hdrop, iterations_snoc, hall, List.append_assoc] }

theorem step_lawful {cfg : SyswatchConfig} (hi : 0 < cfg.intervalSec) {l l' : CollectorLog}
    {i : CollectorInput} (h : Lawful cfg l) (hstep : l.step cfg i = some l') : Lawful cfg l' := by
  obtain ⟨⟨c', calls⟩, hc, rfl⟩ := Option.map_eq_some_iff.mp hstep
  have hnil : ∀ {α : Type} (xs : List α), xs ++ [] = xs := fun xs => List.append_nil xs
  cases collectorStep_cases hc with
  | warmUp st hpc =>
    exact h.move .baseline rfl (hnil _) (hnil _) rfl (by rw [hpc]; rfl) (by rw [hpc]; rfl)
      (fun _ => h.starting (.inl hpc)) (by simp) (by simp) (by rw [hpc]; simp)
  | baseline r hpc => simpa [readsOf, resultsOf] using h.readBaseline r hpc
  | goOn stop hpc hg =>
    exact h.move .sleep rfl (hnil _) (hnil _) rfl (by rw [hpc]; rfl) (by rw [hpc]; rfl)
      (by simp) (by simp) (by simp) (by rw [hpc]; simp)
  | leave stop hpc hg =>
    exact h.move .finished rfl (hnil _) (hnil _) rfl (by rw [hpc]; rfl) (by rw [hpc]; rfl)
      (by simp) (by simp) (by simp) (by rw [hpc]; simp)
  | cutShort left hpc hl =>
    exact h.move .recheck rfl (hnil _) (hnil _) rfl (by rw [hpc]; rfl) (by rw [hpc]; rfl)
      (by simp) (by simp) (by simp) (by rw [hpc]; simp)
  | slept hpc => exact h.wake (.inl hpc) rfl (hnil _) (hnil _) rfl
  | stop hpc =>
    exact h.move .finished rfl (hnil _) (hnil _) rfl (by rw [hpc]; rfl) (by rw [hpc]; rfl)
      (by simp) (by simp) (by simp) (by rw [hpc]; simp)
  | resume hpc => exact h.wake (.inr hpc) rfl (hnil _) (hnil _) rfl
  | ready st hpc => simpa [readsOf, resultsOf] using h.readySent st hpc
  | collect r st hpc => simpa [readsOf, resultsOf] using h.collected hi r st hpc
  | emit st e pending hpc =>
    exact h.move (.emit st pending) rfl (hnil _) (hnil _) rfl (by rw [hpc]; rfl)
      (by rw [hpc]; rfl) (by simp) (by simp) (by simp) (by rw [hpc]; simp)
  | depth st size hpc =>
    exact h.move (.dropped st) rfl (hnil _) (hnil _) rfl (by rw [hpc]; rfl) (by rw [hpc]; rfl)
      (by simp) (by simp) (by simp) (by rw [hpc]; simp)
  | dropped st count hpc =>
    exact h.move (.internal st) rfl (hnil _) (hnil _) rfl (by rw [hpc]; rfl)
      (by rw [hpc]; rfl) (by simp) (by simp) (by simp) (by rw [hpc]; simp)
  | internal st hpc =>
    exact h.move .test rfl (hnil _) (hnil _) rfl (by rw [hpc]; rfl) (by rw [hpc]; rfl)
      (by simp) (by simp) (by simp) (by rw [hpc]; simp)

theorem run_lawful {cfg : SyswatchConfig} (hi : 0 < cfg.intervalSec) {is : List CollectorInput}
    {l : CollectorLog} (h : run (CollectorLog.step cfg) .start is = some l) : Lawful cfg l :=
  run_preserves h (start_lawful cfg) fun _ _ _ hl hs => step_lawful hi hl hs

end Rounded

/-! ## A limited number of iterations -/

/-- What a run that never sees `g_stop` keeps: the rows stay within the limit,
and the thread only finishes at it. -/
structure Limited (n : Nat) (c : Collector) : Prop where
  rows : c.rows ≤ n
  inside : c.pc ≠ .warmUp → c.pc ≠ .baseline → c.pc ≠ .test → c.pc ≠ .finished → c.rows < n
  finished : c.pc = .finished → c.rows = n

/-- Steps left before the thread has finished. -/
def rank : CollectorPc → Nat
  | .warmUp => 14
  | .baseline => 13
  | .test => 12
  | .sleep => 11
  | .recheck => 10
  | .ready => 9
  | .collect => 8
  | .emit _ pending => 3 + pending.length
  | .dropped _ => 2
  | .internal _ => 1
  | .finished => 0

def stepsLeft (n : Nat) (c : Collector) : Nat := 13 * (n - c.rows) + rank c.pc

theorem goesOn_limited {cfg : SyswatchConfig} {n : Nat} (hn : cfg.iterations.toInt = n) (h0 : 0 < n)
    (rows : Nat) : goesOn cfg rows false = true ↔ rows < n := by
  have hne : cfg.iterations ≠ 0 := by
    intro h
    rw [h] at hn
    simp at hn
    omega
  simp [goesOn, hne, hn]

theorem metricEvents_length (m : Metrics) : (metricEvents m).length ≤ 4 := by
  have hone : ∀ {α : Type} (x : Option α), x.toList.length ≤ 1 := by
    intro α x
    cases x <;> simp
  have := hone (m.cpu.map Event.cpu)
  have := hone (m.memory.map Event.memory)
  have := hone (m.disk.map Event.disk)
  have := hone (m.net.map Event.network)
  simp only [metricEvents, List.length_append]
  omega

/-- A step inside an iteration comes closer to its end. -/
theorem Limited.within {n : Nat} {c c' : Collector} (h : Limited n c)
    (hin : c.pc ≠ .warmUp ∧ c.pc ≠ .baseline ∧ c.pc ≠ .test ∧ c.pc ≠ .finished)
    (hrows : c'.rows = c.rows) (hpc : c'.pc ≠ .finished) (hrank : rank c'.pc < rank c.pc) :
    Limited n c' ∧ stepsLeft n c' < stepsLeft n c := by
  have hlt := h.inside hin.1 hin.2.1 hin.2.2.1 hin.2.2.2
  refine ⟨⟨hrows ▸ h.rows, fun _ _ _ _ => hrows ▸ hlt, fun hf => absurd hf hpc⟩, ?_⟩
  simp only [stepsLeft, hrows]
  omega

theorem rank_awake (c : Collector) : rank c.awake < 10 ∧ c.awake ≠ .finished := by
  unfold Collector.awake
  split <;> simp [rank]

theorem limited_step [Lib.Rounding] {cfg : SyswatchConfig} {n : Nat} (hn : cfg.iterations.toInt = n) (h0 : 0 < n)
    {c c' : Collector} {i : CollectorInput} {calls : List Call} (h : Limited n c)
    (hi : i ≠ .gStop true) (hstep : collectorStep cfg c i = some (c', calls)) :
    Limited n c' ∧ stepsLeft n c' < stepsLeft n c := by
  have hr := h.rows
  obtain ⟨hawake, hgoes⟩ := rank_awake c
  cases collectorStep_cases hstep with
  | warmUp st hpc => exact ⟨⟨hr, by simp, by simp⟩, by simp [stepsLeft, rank, hpc]⟩
  | baseline r hpc => exact ⟨⟨hr, by simp, by simp⟩, by simp [stepsLeft, rank, hpc]⟩
  | goOn stop hpc hg =>
    cases stop with
    | true => exact absurd rfl hi
    | false =>
      have hlt := (goesOn_limited hn h0 c.rows).mp hg
      exact ⟨⟨hr, fun _ _ _ _ => hlt, by simp⟩, by simp [stepsLeft, rank, hpc]⟩
  | leave stop hpc hg =>
    cases stop with
    | true => exact absurd rfl hi
    | false =>
      have hge : ¬c.rows < n := fun hlt => by
        rw [(goesOn_limited hn h0 c.rows).mpr hlt] at hg
        cases hg
      exact ⟨⟨hr, by simp, fun _ => le_antisymm hr (not_lt.mp hge)⟩, by simp [stepsLeft, rank, hpc]⟩
  | cutShort left hpc hl => exact h.within (by simp [hpc]) rfl (by simp) (by simp [rank, hpc])
  | slept hpc =>
    exact h.within (by simp [hpc]) rfl hgoes (lt_trans hawake (by simp [rank, hpc]))
  | stop hpc => exact absurd rfl hi
  | resume hpc => exact h.within (by simp [hpc]) rfl hgoes (by simpa [rank, hpc] using hawake)
  | ready st hpc => exact h.within (by simp [hpc]) rfl (by simp) (by simp [rank, hpc])
  | collect r st hpc =>
    have := metricEvents_length (collect cfg c.samples r).1
    exact h.within (by simp [hpc]) rfl (by simp) (by simp only [rank, hpc]; omega)
  | emit st e pending hpc => exact h.within (by simp [hpc]) rfl (by simp) (by simp [rank, hpc])
  | depth st size hpc => exact h.within (by simp [hpc]) rfl (by simp) (by simp [rank, hpc])
  | dropped st count hpc => exact h.within (by simp [hpc]) rfl (by simp) (by simp [rank, hpc])
  | internal st hpc =>
    have hlt := h.inside (by simp [hpc]) (by simp [hpc]) (by simp [hpc]) (by simp [hpc])
    exact ⟨⟨hlt, by simp, by simp⟩, by simp only [stepsLeft, rank, hpc]; omega⟩

/-- Every program counter but the last has a step that needs no signal. -/
theorem collectorStep_enabled [Lib.Rounding] (cfg : SyswatchConfig) (c : Collector) (hpc : c.pc ≠ .finished)
    (st : Stamp) (r : Reads) : ∃ i, i ≠ .gStop true ∧ (collectorStep cfg c i).isSome := by
  unfold collectorStep
  cases hp : c.pc with
  | warmUp => exact ⟨.stamp st, by simp, rfl⟩
  | baseline => exact ⟨.reads r, by simp, rfl⟩
  | test => exact ⟨.gStop false, by simp, rfl⟩
  | sleep => exact ⟨.slept 0, by simp, rfl⟩
  | recheck => exact ⟨.gStop false, by simp, rfl⟩
  | ready => exact ⟨.stamp st, by simp, rfl⟩
  | collect => exact ⟨.sample r st, by simp, rfl⟩
  | emit st pending =>
    cases pending with
    | nil => exact ⟨.queueSize 0, by simp, rfl⟩
    | cons e pending => exact ⟨.proceed, by simp, rfl⟩
  | dropped st => exact ⟨.queueDropped 0, by simp, rfl⟩
  | internal st => exact ⟨.proceed, by simp, rfl⟩
  | finished => exact absurd hp hpc

/-- A run that never sees `g_stop` uses up its steps. -/
theorem limited_run [Lib.Rounding] {cfg : SyswatchConfig} {n : Nat} (hn : cfg.iterations.toInt = n) (h0 : 0 < n)
    {is : List CollectorInput} {l : CollectorLog} (hfree : ∀ i ∈ is, i ≠ .gStop true)
    (h : run (CollectorLog.step cfg) .start is = some l) :
    Limited n l.collector ∧ is.length + stepsLeft n l.collector ≤ 13 * n + 14 := by
  induction is using List.reverseRecOn generalizing l with
  | nil =>
    cases h
    exact ⟨⟨Nat.zero_le _, by simp [CollectorLog.start, Collector.start],
      by simp [CollectorLog.start, Collector.start]⟩, by
        simp [stepsLeft, CollectorLog.start, Collector.start, rank]⟩
  | append_singleton is i ih =>
    obtain ⟨m, hm, hstep⟩ := run_snoc.mp h
    obtain ⟨⟨c', calls⟩, hc, rfl⟩ := Option.map_eq_some_iff.mp hstep
    obtain ⟨hl, hle⟩ := ih (fun j hj => hfree j (by simp [hj])) hm
    obtain ⟨hl', hlt⟩ := limited_step hn h0 hl (hfree i (by simp)) hc
    refine ⟨hl', ?_⟩
    change (is ++ [i]).length + stepsLeft n c' ≤ 13 * n + 14
    rw [List.length_append, List.length_singleton]
    omega

/-- **The calls of the collector.** Whenever the thread is at its loop test or
has finished, it has enqueued exactly the events of the grammar. With a limit
of `n` iterations and `g_stop` never seen set, it can always go on until it
has finished, after at most `13 * n + 14` steps, and then there have been `n`
internal events. -/
theorem collector_calls [Lib.Rounding] (cfg : SyswatchConfig) (hi : 1 ≤ cfg.intervalSec) :
    (∀ is l, run (CollectorLog.step cfg) .start is = some l →
      l.collector.pc = .test ∨ l.collector.pc = .finished →
      l.calls.map (fun c => c.event.eventType) = expectedTypes cfg l.reads) ∧
    ∀ n : Nat, 0 < n → cfg.iterations.toInt = n → ∀ is l, (∀ i ∈ is, i ≠ .gStop true) →
      run (CollectorLog.step cfg) .start is = some l →
      is.length ≤ 13 * n + 14 ∧
      (l.collector.pc ≠ .finished → ∃ i, i ≠ .gStop true ∧ (l.step cfg i).isSome) ∧
      (l.collector.pc = .finished →
        (l.calls.map fun c => c.event.eventType).count .internal = n) := by
  have hpos := interval_pos hi
  have hexact : ∀ is l, run (CollectorLog.step cfg) .start is = some l →
      l.collector.pc = .test ∨ l.collector.pc = .finished →
      l.calls.map (fun c => c.event.eventType) = expectedTypes cfg l.reads := by
    intro is l hrun hpc
    have h := run_lawful hpos hrun
    have ht := h.types
    have howed : owed l.collector.pc = [] := by rcases hpc with hp | hp <;> rw [hp] <;> rfl
    have hfirst : l.collector.firstIteration = true ↔ l.reads.drop 1 = [] := by
      rw [List.drop_eq_nil_iff]
      refine ⟨h.first, fun hlen => ?_⟩
      by_contra hf
      rcases h.later (by simpa using hf) with hp | hlen'
      · rcases hpc with hp' | hp' <;> rw [hp'] at hp <;> cases hp
      · omega
    rw [howed, List.append_nil] at ht
    rw [ht, expectedTypes]
    by_cases hd : l.reads.drop 1 = []
    · rw [if_pos hd, if_pos (hfirst.mpr hd)]
    · rw [if_neg hd, if_neg (fun hf => hd (hfirst.mp hf))]
  refine ⟨hexact, fun n h0 hn is l hfree hrun => ?_⟩
  obtain ⟨hlim, hle⟩ := limited_run hn h0 hfree hrun
  refine ⟨by omega, fun hpc => ?_, fun hpc => ?_⟩
  · obtain ⟨i, hi', hsome⟩ := collectorStep_enabled cfg l.collector hpc
      ⟨.empty 64, .empty 256⟩ ⟨none, none, none, none⟩
    exact ⟨i, hi', by simpa [CollectorLog.step] using hsome⟩
  · have hcount := (run_lawful hpos hrun).count
    rw [hpc, hlim.finished hpc] at hcount
    rw [hexact is l hrun (.inr hpc), expectedTypes, List.count_append, count_iterations,
      List.length_drop, hcount]
    split_ifs <;> simp [readsAt]

/-- Two iterations. The first reads no CPU times, and the second neither the memory nor the
interfaces; the baseline has no disks. -/
def twoIterations : List CollectorInput :=
  let st : Stamp := ⟨.empty 64, .empty 256⟩
  [.stamp st, .reads { someReads 0 with disk := none }, .gStop false, .slept 0, .stamp st,
    .sample { someReads 100 with cpu := none } st, .proceed, .proceed, .queueSize 4, .queueDropped 0, .proceed,
    .gStop false, .slept 0, .sample { someReads 300 with memory := none, net := none } st, .proceed,
    .proceed, .queueSize 2, .queueDropped 0, .proceed, .gStop false]

theorem collector_calls_twoIterations : ∃ l,
    run (CollectorLog.step { initDefaultConfig with iterations := 2 }) .start twoIterations = some l ∧
      l.calls.map (fun c => c.event.eventType) =
        [.warmingUp, .ready, .memory, .network, .internal, .cpu, .disk, .internal] ∧
      (l.calls.map fun c => c.event.eventType).count .internal = 2 :=
  ⟨_, rfl,
    (collector_calls { initDefaultConfig with iterations := 2 } (by decide)).1 twoIterations _ rfl
      (.inr rfl),
    ((collector_calls { initDefaultConfig with iterations := 2 } (by decide)).2 2 (by decide)
      (by decide) twoIterations _ (by simp [twoIterations]) rfl).2.2 rfl⟩

end Syswatch.CollectorGrammar
