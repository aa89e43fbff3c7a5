import Syswatch.CollectorGrammar

/-! # The rates over a run of the collector

A rate is the increase between two snapshots divided by `interval_sec`. The
sum of the rates accounts for all traffic of a run, but a single rate is an
average over the time it covers only where no read failed in between. Both are said
of exact arithmetic. -/

namespace Syswatch.CollectorRates
open Lib.CText Lib.Sampling Lib.Machine CollectorGrammar

local instance : Lib.Rounding := .exact

/-- The disks or the interfaces: snapshots, statistics and what relates them. -/
structure RateSource (S T γ ρ : Type) where
  kind : CounterKind γ ρ
  items : S → List γ
  entries : T → List ρ
  compute : Int32 → S → S → Option T
  compute_eq : ∀ {intervalSec : Int32}, 0 < intervalSec → ∀ prev curr, ∃ stats,
    compute intervalSec prev curr = some stats ∧
      entries stats = kind.averaged intervalSec.toInt (items prev) (items curr)

def diskSource : RateSource DiskSnapshot DiskStats DiskCounter DiskRateEntry where
  kind := diskKind
  items := DiskSnapshot.items
  entries := DiskStats.items
  compute := diskComputeStats
  compute_eq := diskComputeStats_eq

def netSource : RateSource NetSnapshot NetStats NetCounter NetRateEntry where
  kind := netKind
  items := NetSnapshot.items
  entries := NetStats.items
  compute := netComputeStats
  compute_eq := netComputeStats_eq

/-! ## The results of a run -/

theorem map_metricsOf {S T : Type} (cfg : SyswatchConfig) (compute : S → S → Option T)
    (read : Reads → Option S) (result : Metrics → Option T)
    (h : ∀ past r, result (metricsAt cfg past r) = comparison compute (past.map read) (read r))
    (past rs : List Reads) :
    (metricsOf cfg past rs).map result = comparisons compute (past.map read) (rs.map read) := by
  induction rs generalizing past with
  | nil => rfl
  | cons r rs ih =>
    rw [metricsOf, List.map_cons, List.map_cons, comparisons, h, ih, List.map_append]
    rfl

/-- The statistics of the iterations compare every success with the one before. -/
theorem run_results {cfg : SyswatchConfig} (hi : 0 < cfg.intervalSec) {is : List CollectorInput}
    {l : CollectorLog} (h : run (CollectorLog.step cfg) .start is = some l) :
    l.results.map Metrics.disk =
        successive (diskComputeStats cfg.intervalSec) (l.reads.map (diskRead cfg)) ∧
      l.results.map Metrics.net =
        successive (netComputeStats cfg.intervalSec) (l.reads.map (netRead cfg)) := by
  rw [(run_lawful hi h).results, successive, successive, ← List.map_take, ← List.map_take,
    ← List.map_drop, ← List.map_drop]
  exact ⟨map_metricsOf cfg _ _ _ (fun _ _ => rfl) _ _, map_metricsOf cfg _ _ _ (fun _ _ => rfl) _ _⟩

/-! ## The time a rate covers -/

/-- Iterations `j` and `k` succeeded, and every iteration between them failed;
iteration 0 is the baseline. -/
structure Consecutive {S : Type} (reads : List (Option S)) (j k : Nat) (prev curr : S) : Prop where
  lt : j < k
  prev : reads[j]? = some (some prev)
  curr : reads[k]? = some (some curr)
  between : ∀ i, j < i → i < k → reads[i]? = some none

theorem Consecutive.unique {S : Type} {reads : List (Option S)} {j j' k : Nat}
    {prev prev' curr curr' : S} (h : Consecutive reads j k prev curr)
    (h' : Consecutive reads j' k prev' curr') : j = j' ∧ prev = prev' ∧ curr = curr' := by
  have hj : j = j' := by
    rcases Nat.lt_trichotomy j j' with hlt | heq | hlt
    · have := h'.prev
      rw [h.between j' hlt h'.lt] at this
      cases this
    · exact heq
    · have := h.prev
      rw [h'.between j hlt h.lt] at this
      cases this
  subst hj
  refine ⟨rfl, ?_, ?_⟩
  · have := h.prev.symm.trans h'.prev
    simpa using this
  · have := h.curr.symm.trans h'.curr
    simpa using this

variable {S T γ ρ : Type} (src : RateSource S T γ ρ)

/-- Every result holds averages over the time between the two iterations in
which the snapshots compared were taken. -/
def OverTime (intervalSec : Int32) (reads : List (Option S)) (results : List (Option T)) : Prop :=
  ∀ k stats, results[k]? = some (some stats) → ∃ j prev curr,
    Consecutive reads j (k + 1) prev curr ∧ src.entries stats =
      src.kind.averaged (((k + 1 - j : Nat) : ℚ) * intervalSec.toInt) (src.items prev) (src.items curr)

/-- No counter of a device that both snapshots list has grown. -/
def Idle (prev curr : List γ) : Prop :=
  ∀ c ∈ curr, ∀ p ∈ src.kind.find prev (src.kind.name c),
    src.kind.first c ≤ src.kind.first p ∧ src.kind.second c ≤ src.kind.second p

/-- Wherever a success follows failures, no counter has grown meanwhile. -/
def Timely (reads : List (Option S)) : Prop :=
  ∀ j k prev curr, Consecutive reads j k prev curr →
    k = j + 1 ∨ Idle src (src.items prev) (src.items curr)

theorem counterDelta_eq_zero {prev curr : UInt64} : counterDelta prev curr = 0 ↔ curr ≤ prev := by
  rw [← UInt64.toNat_inj, counterDelta_toNat, UInt64.le_iff_toNat_le]
  simp only [UInt64.toNat_zero]
  omega

section Kind
variable (K : CounterKind γ ρ)

theorem rate_eq_iff {prev curr : UInt64} {s s' : ℚ} (hs : 0 < s) (hs' : 0 < s') (hne : s ≠ s') :
    K.rate prev curr s = K.rate prev curr s' ↔ curr ≤ prev := by
  have hu := K.unit_pos.ne'
  rw [← counterDelta_eq_zero, CounterKind.rate_exact, CounterKind.rate_exact, div_eq_div_iff hs.ne' hs'.ne']
  constructor
  · intro h
    by_contra hd
    have hd' : ((counterDelta prev curr).toNat : ℚ) * K.unit ≠ 0 :=
      mul_ne_zero (by exact_mod_cast fun h0 => hd (UInt64.toNat_inj.mp h0)) hu
    exact hne (mul_left_cancel₀ hd' h).symm
  · intro h
    rw [h]
    simp

theorem rateEntry_eq_iff {p c : γ} {s s' : ℚ} (hs : 0 < s) (hs' : 0 < s') (hne : s ≠ s') :
    K.rateEntry s p c = K.rateEntry s' p c ↔
      K.first c ≤ K.first p ∧ K.second c ≤ K.second p := by
  rw [← rate_eq_iff K hs hs' hne, ← rate_eq_iff K hs hs' hne]
  constructor
  · intro h
    have := congrArg K.rates h
    rw [CounterKind.rateEntry, CounterKind.rateEntry, K.rates_entry, K.rates_entry] at this
    simpa using this
  · rintro ⟨h₁, h₂⟩
    rw [CounterKind.rateEntry, CounterKind.rateEntry, h₁, h₂]

/-- Two divisors give the same statistics when every increase is zero. -/
theorem averaged_eq_iff {prev curr : List γ} {s s' : ℚ} (hs : 0 < s) (hs' : 0 < s') (hne : s ≠ s') :
    K.averaged s prev curr = K.averaged s' prev curr ↔
      ∀ c ∈ curr, ∀ p ∈ K.find prev (K.name c), K.first c ≤ K.first p ∧ K.second c ≤ K.second p := by
  induction curr with
  | nil => simp [CounterKind.averaged]
  | cons c rest ih =>
    rw [List.forall_mem_cons, ← ih]
    cases hf : K.find prev (K.name c) with
    | none => simp [CounterKind.averaged, hf]
    | some p =>
      rw [show (∀ p' ∈ some p, K.first c ≤ K.first p' ∧ K.second c ≤ K.second p') ↔
        K.rateEntry s p c = K.rateEntry s' p c by
          rw [rateEntry_eq_iff K hs hs' hne]; simp]
      simp [CounterKind.averaged, hf]

end Kind

/-- A success after another one always gives a result, the averages over one interval. -/
theorem result_at {intervalSec : Int32} (hi : 0 < intervalSec) {reads : List (Option S)} {j k : Nat}
    {prev curr : S} (h : Consecutive reads j (k + 1) prev curr) : ∃ stats,
      (successive (src.compute intervalSec) reads)[k]? = some (some stats) ∧
        src.entries stats =
          src.kind.averaged intervalSec.toInt (src.items prev) (src.items curr) := by
  obtain ⟨stats, hs, he⟩ := src.compute_eq hi prev curr
  have := successive_eq (src.compute intervalSec) h.lt h.prev h.curr h.between
  rw [Nat.add_sub_cancel, hs] at this
  exact ⟨stats, this, he⟩

/-- Every result comes from two consecutive successes. -/
theorem consecutive_of_result {compute : S → S → Option T} {reads : List (Option S)} {k : Nat}
    {stats : T} (h : (successive compute reads)[k]? = some (some stats)) :
    ∃ j prev curr, Consecutive reads j (k + 1) prev curr := by
  rw [successive_getElem?, Option.map_eq_some_iff] at h
  obtain ⟨read, hr, hc⟩ := h
  rw [comparison, Option.bind_eq_some_iff] at hc
  obtain ⟨curr, rfl, hc⟩ := hc
  rw [Option.bind_eq_some_iff] at hc
  obtain ⟨prev, hl, _⟩ := hc
  obtain ⟨j, hj, hprev, hnone⟩ := latest_eq_some hl
  have hlen : (reads.take (k + 1)).length = k + 1 :=
    List.length_take_of_le (List.getElem?_eq_some_iff.mp hr).1.le
  rw [hlen] at hj hnone
  rw [List.getElem?_take_of_lt hj] at hprev
  exact ⟨j, prev, curr, hj, hprev, hr, fun i hji hik => by
    simpa [List.getElem?_take_of_lt hik] using hnone i hji hik⟩

/-- The averages are over the time covered exactly in a timely history. -/
theorem overTime_iff {intervalSec : Int32} (hi : 0 < intervalSec) (reads : List (Option S)) :
    OverTime src intervalSec reads (successive (src.compute intervalSec) reads) ↔
      Timely src reads := by
  have hpos : (0 : ℚ) < intervalSec.toInt := by
    have : 0 < intervalSec.toInt := by simpa [Int32.lt_iff_toInt_lt] using hi
    exact_mod_cast this
  have hone : ∀ {j k : Nat}, j < k + 1 → k + 1 ≠ j + 1 → (0 : ℚ) < ((k + 1 - j : Nat) : ℚ) * intervalSec.toInt ∧
      (intervalSec.toInt : ℚ) ≠ ((k + 1 - j : Nat) : ℚ) * intervalSec.toInt := by
    intro j k hjk hne
    have h2 : 2 ≤ k + 1 - j := by omega
    have h2' : (2 : ℚ) ≤ ((k + 1 - j : Nat) : ℚ) := by exact_mod_cast h2
    refine ⟨by positivity, ne_of_lt ?_⟩
    nlinarith
  constructor
  · intro h j k prev curr hcons
    obtain ⟨m, rfl⟩ : ∃ m, k = m + 1 := ⟨k - 1, by have := hcons.lt; omega⟩
    by_cases hnext : m + 1 = j + 1
    · exact .inl hnext
    · obtain ⟨stats, hs, he⟩ := result_at src hi hcons
      obtain ⟨j', prev', curr', hcons', he'⟩ := h m stats hs
      obtain ⟨rfl, rfl, rfl⟩ := hcons.unique hcons'
      obtain ⟨hs', hne⟩ := hone hcons.lt hnext
      exact .inr ((averaged_eq_iff src.kind hpos hs' hne).mp (he.symm.trans he'))
  · intro h k stats hs
    obtain ⟨j, prev, curr, hcons⟩ := consecutive_of_result hs
    obtain ⟨stats', hs', he⟩ := result_at src hi hcons
    rw [hs', Option.some.injEq, Option.some.injEq] at hs
    subst hs
    refine ⟨j, prev, curr, hcons, ?_⟩
    rw [he]
    by_cases hnext : k + 1 = j + 1
    · have : k + 1 - j = 1 := by omega
      rw [this, Nat.cast_one, one_mul]
    · obtain ⟨hs', hne⟩ := hone hcons.lt hnext
      exact (averaged_eq_iff src.kind hpos hs' hne).mpr ((h j (k + 1) prev curr hcons).resolve_left hnext)

/-- **When the rates are averages over the time they cover**: exactly when
every success either directly follows another iteration's success, or finds no
counter grown since the last one. Otherwise the increase of several intervals
is divided by one. -/
theorem rates_over_time_iff (cfg : SyswatchConfig) (hi : 1 ≤ cfg.intervalSec)
    {is : List CollectorInput} {l : CollectorLog}
    (hrun : run (CollectorLog.step cfg) .start is = some l) :
    (OverTime diskSource cfg.intervalSec (l.reads.map (diskRead cfg)) (l.results.map Metrics.disk) ∧
      OverTime netSource cfg.intervalSec (l.reads.map (netRead cfg)) (l.results.map Metrics.net)) ↔
    Timely diskSource (l.reads.map (diskRead cfg)) ∧ Timely netSource (l.reads.map (netRead cfg)) := by
  have hpos := interval_pos hi
  obtain ⟨hdisk, hnet⟩ := run_results hpos hrun
  rw [hdisk, hnet]
  exact and_congr (overTime_iff diskSource hpos _) (overTime_iff netSource hpos _)

/-- Only the network is shown. -/
def netOnly : SyswatchConfig :=
  { initDefaultConfig with showCpu := false, showMemory := false, showDisk := false }

/-- A snapshot with one interface that has received so many bytes. -/
def received (rxBytes : UInt64) : Option NetSnapshot :=
  some ⟨[⟨CString.ofBytes 32 (ascii "eth0"), rxBytes, 0⟩], by simp [MAX_INTERFACES]⟩

/-- The inputs of a run with one iteration for each read of the network. -/
def netRun (baseline : Option NetSnapshot) (reads : List (Option NetSnapshot)) :
    List CollectorInput :=
  let st : Stamp := ⟨.empty 64, .empty 256⟩
  .stamp st :: .reads ⟨none, none, none, baseline⟩ :: (reads.mapIdx fun k r =>
    [.gStop false, .slept 0] ++ (if k = 0 then [.stamp st] else []) ++
      [.sample ⟨none, none, none, r⟩ st] ++
      (if r.isSome ∧ (baseline.isSome ∨ (reads.take k).any Option.isSome) then [.proceed] else []) ++
      [.queueSize 0, .queueDropped 0, .proceed]).flatten

/-- 2000 bytes received over two seconds, of which the first iteration could
not read the counters, give a rate of 2000 bytes a second. -/
theorem rate_after_failure : ∃ l,
    run (CollectorLog.step netOnly) .start (netRun (received 0) [none, received 2000]) = some l ∧
      ¬OverTime netSource netOnly.intervalSec (l.reads.map (netRead netOnly))
        (l.results.map Metrics.net) := by
  refine ⟨_, rfl, fun h => ?_⟩
  obtain ⟨j, prev, curr, ⟨hlt, hprev, hcurr, _⟩, he⟩ := h 1
    ⟨[⟨CString.ofBytes 32 (ascii "eth0"), 2000, 0⟩], by simp [MAX_INTERFACES]⟩ (by decide +kernel)
  interval_cases j
  · cases hprev
    cases hcurr
    revert he
    decide +kernel
  · cases hprev

theorem rates_over_time_iff_example : ∃ l,
    run (CollectorLog.step netOnly) .start (netRun (received 0) [received 2000, none]) = some l ∧
      ((OverTime diskSource netOnly.intervalSec (l.reads.map (diskRead netOnly))
          (l.results.map Metrics.disk) ∧
        OverTime netSource netOnly.intervalSec (l.reads.map (netRead netOnly))
          (l.results.map Metrics.net)) ↔
      Timely diskSource (l.reads.map (diskRead netOnly)) ∧
        Timely netSource (l.reads.map (netRead netOnly))) :=
  ⟨_, rfl, @rates_over_time_iff netOnly (by decide) (netRun (received 0) [received 2000, none]) _ rfl⟩

/-! ## The sum of the rates -/

/-- A counter of the device of that name. -/
def reading (name : CString 32) (counter : γ → UInt64) (s : S) : ℚ :=
  ((src.kind.find (src.items s) name).map fun d => ((counter d).toNat : ℚ)).getD 0

/-- What one result says the device has moved: rate times `interval_sec`. -/
def moved (intervalSec : Int32) (name : CString 32) (pick : ℚ × ℚ → ℚ) (stats : T) : ℚ :=
  (((src.entries stats).filter fun e => (src.kind.rates e).1 = name).map fun e =>
    pick (src.kind.rates e).2 * intervalSec.toInt).sum

/-- The sum over all results. -/
def totalMoved (intervalSec : Int32) (name : CString 32) (pick : ℚ × ℚ → ℚ)
    (results : List (Option T)) : ℚ :=
  (results.map fun r => (r.map (moved src intervalSec name pick)).getD 0).sum

/-- The device is in every snapshot exactly once, and its counters never decrease. -/
structure Tracked (name : CString 32) (snapshots : List S) : Prop where
  once : ∀ s ∈ snapshots, (src.items s).countP (fun d => src.kind.name d = name) = 1
  grows : snapshots.IsChain fun a b =>
    reading src name src.kind.first a ≤ reading src name src.kind.first b ∧
      reading src name src.kind.second a ≤ reading src name src.kind.second b

variable {src}

/-- The one device of that name. -/
theorem filter_of_once {name : CString 32} {s : S}
    (h : (src.items s).countP (fun d => src.kind.name d = name) = 1) :
    ∃ d, (src.items s).filter (fun d => src.kind.name d = name) = [d] ∧
      src.kind.name d = name ∧ src.kind.find (src.items s) name = some d := by
  rw [List.countP_eq_length_filter, List.length_eq_one_iff] at h
  obtain ⟨d, hd⟩ := h
  have hmem : d ∈ (src.items s).filter fun d => src.kind.name d = name := by rw [hd]; simp
  refine ⟨d, hd, by simpa using (List.mem_filter.mp hmem).2, ?_⟩
  rw [CounterKind.find, ← List.head?_filter, hd, List.head?_cons]

/-- The statistics of one device are those of the snapshots cut down to it. -/
theorem averaged_filter (K : CounterKind γ ρ) (s : ℚ) (prev curr : List γ) (name : CString 32) :
    (K.averaged s prev curr).filter (fun e => (K.rates e).1 = name) =
      K.averaged s prev (curr.filter fun c => K.name c = name) := by
  have hname : ∀ p c, (K.rates (K.rateEntry s p c)).1 = K.name c := fun p c => by
    rw [CounterKind.rateEntry, K.rates_entry]
  induction curr with
  | nil => rfl
  | cons c rest ih =>
    simp only [CounterKind.averaged] at ih ⊢
    cases hf : K.find prev (K.name c) with
    | none =>
      by_cases hc : K.name c = name
      · rw [List.filter_cons_of_pos (by simpa using hc)]
        simpa [hf] using ih
      · rw [List.filter_cons_of_neg (by simpa using hc)]
        simpa [hf] using ih
    | some p =>
      by_cases hc : K.name c = name
      · rw [List.filter_cons_of_pos (p := fun c => decide (K.name c = name)) (by simpa using hc)]
        simp only [List.filterMap_cons, hf, Option.map_some]
        rw [List.filter_cons_of_pos (by simpa [hname] using hc), ih]
      · rw [List.filter_cons_of_neg (p := fun c => decide (K.name c = name)) (by simpa using hc)]
        simp only [List.filterMap_cons, hf, Option.map_some]
        rw [List.filter_cons_of_neg (by simpa [hname] using hc), ih]

theorem rate_mul (K : CounterKind γ ρ) {prev curr : UInt64} {s : ℚ} (hs : 0 < s)
    (h : (prev.toNat : ℚ) ≤ curr.toNat) :
    K.rate prev curr s * s = K.unit * (curr.toNat - prev.toNat) := by
  have hle : prev.toNat ≤ curr.toNat := by exact_mod_cast h
  rw [CounterKind.rate_exact, div_mul_cancel₀ _ hs.ne', counterDelta_toNat, Nat.cast_sub hle, mul_comm]

/-- What one result measures is the increase between the snapshots compared. -/
theorem moved_eq {intervalSec : Int32} (hi : 0 < intervalSec) {name : CString 32} {prev curr : S}
    (hp : (src.items prev).countP (fun d => src.kind.name d = name) = 1)
    (hc : (src.items curr).countP (fun d => src.kind.name d = name) = 1)
    (h₁ : reading src name src.kind.first prev ≤ reading src name src.kind.first curr)
    (h₂ : reading src name src.kind.second prev ≤ reading src name src.kind.second curr) :
    ∃ stats, src.compute intervalSec prev curr = some stats ∧
      moved src intervalSec name Prod.fst stats = src.kind.unit * reading src name src.kind.first curr -
        src.kind.unit * reading src name src.kind.first prev ∧
      moved src intervalSec name Prod.snd stats = src.kind.unit * reading src name src.kind.second curr -
        src.kind.unit * reading src name src.kind.second prev := by
  have hpos : (0 : ℚ) < intervalSec.toInt := by
    have : 0 < intervalSec.toInt := by simpa [Int32.lt_iff_toInt_lt] using hi
    exact_mod_cast this
  obtain ⟨stats, hs, he⟩ := src.compute_eq hi prev curr
  obtain ⟨p, _, _, hfp⟩ := filter_of_once hp
  obtain ⟨c, hfilter, hname, hfc⟩ := filter_of_once hc
  have hentry : (src.entries stats).filter (fun e => (src.kind.rates e).1 = name) =
      [src.kind.rateEntry intervalSec.toInt p c] := by
    rw [he, averaged_filter, hfilter, CounterKind.averaged, List.filterMap_cons, hname, hfp]
    rfl
  simp only [reading, hfp, hfc, Option.map_some, Option.getD_some] at h₁ h₂ ⊢
  refine ⟨stats, hs, ?_, ?_⟩ <;>
    simp only [moved, hentry, List.map_cons, List.map_nil, List.sum_cons, List.sum_nil, add_zero,
      CounterKind.rateEntry, src.kind.rates_entry]
  · rw [rate_mul src.kind hpos h₁, mul_sub]
  · rw [rate_mul src.kind hpos h₂, mul_sub]

/-- The sums telescope. -/
theorem totalMoved_eq {intervalSec : Int32} (hi : 0 < intervalSec) {name : CString 32}
    {reads : List (Option S)} (h : Tracked src name reads.reduceOption) :
    totalMoved src intervalSec name Prod.fst (successive (src.compute intervalSec) reads) =
        span (fun s => src.kind.unit * reading src name src.kind.first s) reads.reduceOption ∧
      totalMoved src intervalSec name Prod.snd (successive (src.compute intervalSec) reads) =
        span (fun s => src.kind.unit * reading src name src.kind.second s) reads.reduceOption := by
  have hpairs := h.grows.imp_of_mem_imp fun a b ha hb hle =>
    moved_eq hi (h.once a ha) (h.once b hb) hle.1 hle.2
  constructor
  · exact successive_sum _ _ _ reads (hpairs.imp fun a b ⟨t, ht, h₁, _⟩ => ⟨t, ht, h₁⟩)
  · exact successive_sum _ _ _ reads (hpairs.imp fun a b ⟨t, ht, _, h₂⟩ => ⟨t, ht, h₂⟩)

/-- **No traffic is lost or counted twice.** Over every run of the collector,
for a device that is in every successful snapshot exactly once and whose
counters never decrease, the rates times `interval_sec` add up to the increase
of its counters between the first and the last successful snapshot, in bytes. -/
theorem traffic_conserved (cfg : SyswatchConfig) (hi : 1 ≤ cfg.intervalSec)
    {is : List CollectorInput} {l : CollectorLog}
    (hrun : run (CollectorLog.step cfg) .start is = some l) (name : CString 32) :
    (∀ snapshots, snapshots = (l.reads.map (netRead cfg)).reduceOption →
      Tracked netSource name snapshots →
      totalMoved netSource cfg.intervalSec name Prod.fst (l.results.map Metrics.net) =
          span (reading netSource name NetCounter.rxBytes) snapshots ∧
        totalMoved netSource cfg.intervalSec name Prod.snd (l.results.map Metrics.net) =
          span (reading netSource name NetCounter.txBytes) snapshots) ∧
    (∀ snapshots, snapshots = (l.reads.map (diskRead cfg)).reduceOption →
      Tracked diskSource name snapshots →
      totalMoved diskSource cfg.intervalSec name Prod.fst (l.results.map Metrics.disk) =
          span (fun s => 512 * reading diskSource name DiskCounter.sectorsRead s) snapshots ∧
        totalMoved diskSource cfg.intervalSec name Prod.snd (l.results.map Metrics.disk) =
          span (fun s => 512 * reading diskSource name DiskCounter.sectorsWritten s) snapshots) := by
  have hpos := interval_pos hi
  obtain ⟨hdisk, hnet⟩ := run_results hpos hrun
  refine ⟨?_, ?_⟩
  · rintro _ rfl htracked
    have := totalMoved_eq hpos htracked
    rw [hnet]
    simpa [netSource, netKind] using this
  · rintro _ rfl htracked
    rw [hdisk]
    exact totalMoved_eq hpos htracked

theorem traffic_conserved_example : ∃ l,
    run (CollectorLog.step netOnly) .start (netRun (received 0) [none, received 2000]) = some l ∧
      totalMoved netSource netOnly.intervalSec (CString.ofBytes 32 (ascii "eth0")) Prod.fst
          (l.results.map Metrics.net) =
        span (reading netSource (CString.ofBytes 32 (ascii "eth0")) NetCounter.rxBytes)
          [(received 0).get rfl, (received 2000).get rfl] ∧
      totalMoved diskSource netOnly.intervalSec (CString.ofBytes 32 (ascii "sda")) Prod.fst
          (l.results.map Metrics.disk) = 0 := by
  refine ⟨_, rfl, ?_, ?_⟩
  · exact ((@traffic_conserved netOnly (by decide) (netRun (received 0) [none, received 2000]) _
      rfl _).1 [(received 0).get rfl, (received 2000).get rfl] rfl
      ⟨by decide +kernel, by decide +kernel⟩).1
  · exact ((@traffic_conserved netOnly (by decide) (netRun (received 0) [none, received 2000]) _
      rfl _).2 [] rfl ⟨by simp, .nil⟩).1

end Syswatch.CollectorRates
