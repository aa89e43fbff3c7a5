import Syswatch.Cpu

/-! # The percentages of `cpu_compute_stats`

They are bounded for every two snapshots, whatever the counters did in between.
Only the comparison of the parts with the whole needs counters that grew. -/

namespace Syswatch.CpuUsage

/-! ## Percentages -/

def Percentage (q : ℚ) : Prop := 0 ≤ q ∧ q ≤ 100

theorem clampDouble_percentage (q : ℚ) : Percentage (clampDouble q 0 100) := by
  unfold clampDouble Percentage
  split_ifs <;> constructor <;> linarith

theorem clampDouble_of_percentage {q : ℚ} (h : Percentage q) : clampDouble q 0 100 = q := by
  rw [clampDouble, if_neg (not_lt.mpr h.1), if_neg (not_lt.mpr h.2)]

/-- Clamping keeps what belongs together at 100. -/
theorem clampDouble_complement (q : ℚ) : clampDouble (100 - q) 0 100 + clampDouble q 0 100 = 100 := by
  unfold clampDouble
  split_ifs <;> linarith

section Bounds
variable [Lib.Rounding]

/-! ## The array of the cores -/

/-- One turn of the loop over the cores. -/
def storeCore (prev curr : List CpuTimes) (out : List ℚ) (i : Nat) : List ℚ :=
  match prev[i]?, curr[i]? with
  | some p, some c => out.set i (cpuPctFromDelta p c).1
  | _, _ => out

/-- `out->core_usage_pct` after `memset` and the loop. -/
def coreUsageArray (prev curr : CpuSnapshot) : List ℚ :=
  (List.range (min prev.cores.length curr.cores.length)).foldl (storeCore prev.cores curr.cores)
    (List.replicate MAX_CORES 0)

/-- The array starts with the usages of the cores both snapshots have. -/
theorem storeCore_loop (prev curr : List CpuTimes) {size k : Nat} (hsize : k ≤ size)
    (hk : k ≤ min prev.length curr.length) :
    (List.range k).foldl (storeCore prev curr) (List.replicate size 0) =
      (List.zipWith (fun p c => (cpuPctFromDelta p c).1) prev curr).take k ++
        List.replicate (size - k) 0 := by
  induction k with
  | zero => simp
  | succ k ih =>
    have hp : k < prev.length := by omega
    have hc : k < curr.length := by omega
    have hlen : ((List.zipWith (fun p c => (cpuPctFromDelta p c).1) prev curr).take k).length = k := by
      rw [List.length_take, List.length_zipWith]
      omega
    obtain ⟨m, hm⟩ := Nat.exists_eq_add_of_lt hsize
    rw [List.range_succ, List.foldl_append, ih (by omega) (by omega), List.foldl_cons, List.foldl_nil,
      storeCore, List.getElem?_eq_getElem hp, List.getElem?_eq_getElem hc]
    dsimp only
    rw [List.set_append_right _ _ hlen.le, hlen, Nat.sub_self, show size - k = m + 1 by omega,
      List.replicate_succ, List.set_cons_zero, show size - (k + 1) = m by omega,
      List.take_succ_eq_append_getElem (by rw [List.length_zipWith]; omega), List.getElem_zipWith,
      List.append_assoc]
    rfl

theorem coreUsageArray_eq (prev curr : CpuSnapshot) : coreUsageArray prev curr =
    List.zipWith (fun p c => (cpuPctFromDelta p c).1) prev.cores curr.cores ++
      List.replicate (MAX_CORES - min prev.cores.length curr.cores.length) 0 := by
  have hsize : min prev.cores.length curr.cores.length ≤ MAX_CORES := (min_le_left _ _).trans prev.bound
  rw [coreUsageArray, storeCore_loop prev.cores curr.cores hsize le_rfl,
    List.take_of_length_le (by rw [List.length_zipWith])]

/-! ## All of them -/

/-- However the operations are rounded. -/
theorem cpuPctFromDelta_percentages (prev curr : CpuTimes) :
    let (usage, user, system, idle) := cpuPctFromDelta prev curr
    Percentage usage ∧ Percentage user ∧ Percentage system ∧ Percentage idle := by
  unfold cpuPctFromDelta
  dsimp only
  split_ifs
  · norm_num [Percentage]
  · exact ⟨clampDouble_percentage _, clampDouble_percentage _, clampDouble_percentage _,
      clampDouble_percentage _⟩

theorem coreUsageArray_percentages (prev curr : CpuSnapshot) :
    ∀ usage ∈ coreUsageArray prev curr, Percentage usage := by
  intro usage husage
  rw [coreUsageArray_eq, List.mem_append] at husage
  rcases husage with husage | husage
  · obtain ⟨i, hi, rfl⟩ := List.mem_iff_getElem.mp husage
    rw [List.getElem_zipWith]
    exact (cpuPctFromDelta_percentages _ _).1
  · rw [List.eq_of_mem_replicate husage]
    norm_num [Percentage]

end Bounds

section Exact

/-! From here on the arithmetic is exact. -/

local instance : Lib.Rounding := .exact

theorem cpuPctFromDelta_complement (prev curr : CpuTimes) :
    let (usage, _, _, idle) := cpuPctFromDelta prev curr
    usage + idle = 100 := by
  unfold cpuPctFromDelta
  dsimp only
  split_ifs
  · norm_num
  · simp only [Lib.Rounding.fl_exact]
    exact clampDouble_complement _

/-! ## The parts and the whole -/

/-- The sum of the counters, which `cpu_total_jiffies` has modulo 2^64. -/
def jiffies (t : CpuTimes) : Nat :=
  t.user.toNat + t.nice.toNat + t.system.toNat + t.idle.toNat + t.iowait.toNat + t.irq.toNat +
    t.softirq.toNat + t.steal.toNat

/-- No counter is below its earlier value. -/
structure Grown (prev curr : CpuTimes) : Prop where
  user : prev.user ≤ curr.user
  nice : prev.nice ≤ curr.nice
  system : prev.system ≤ curr.system
  idle : prev.idle ≤ curr.idle
  iowait : prev.iowait ≤ curr.iowait
  irq : prev.irq ≤ curr.irq
  softirq : prev.softirq ≤ curr.softirq
  steal : prev.steal ≤ curr.steal

theorem cpuTotalJiffies_toNat {t : CpuTimes} (h : jiffies t < 2 ^ 64) :
    (cpuTotalJiffies t).toNat = jiffies t := by
  simp only [cpuTotalJiffies, UInt64.toNat_add]
  unfold jiffies at h ⊢
  omega

/-- What was spent as user, system and idle is part of the total. -/
theorem deltas_le_total {prev curr : CpuTimes} (h : Grown prev curr) (hprev : jiffies prev < 2 ^ 64)
    (hcurr : jiffies curr < 2 ^ 64) :
    (counterDelta prev.user curr.user).toNat + (counterDelta prev.system curr.system).toNat +
        (counterDelta prev.idle curr.idle).toNat ≤
      (counterDelta (cpuTotalJiffies prev) (cpuTotalJiffies curr)).toNat := by
  obtain ⟨huser, hnice, hsystem, hidle, hiowait, hirq, hsoftirq, hsteal⟩ := h
  rw [UInt64.le_iff_toNat_le] at huser hnice hsystem hidle hiowait hirq hsoftirq hsteal
  simp only [counterDelta_toNat, cpuTotalJiffies_toNat hprev, cpuTotalJiffies_toNat hcurr, jiffies]
  omega

theorem percentage_of_le {part total : Nat} (h : part ≤ total) :
    Percentage (100 * ((part : ℚ) / total)) := by
  have hle : (part : ℚ) / total ≤ 1 := div_le_one_of_le₀ (by exact_mod_cast h) (Nat.cast_nonneg total)
  have hpos : (0 : ℚ) ≤ part / total := by positivity
  constructor <;> linarith

theorem cpuPctFromDelta_parts {prev curr : CpuTimes} (h : Grown prev curr)
    (hprev : jiffies prev < 2 ^ 64) (hcurr : jiffies curr < 2 ^ 64) :
    let (usage, user, system, _) := cpuPctFromDelta prev curr
    user + system ≤ usage := by
  have hle := deltas_le_total h hprev hcurr
  unfold cpuPctFromDelta
  dsimp only
  split_ifs with htotal
  · norm_num
  · simp only [Lib.Rounding.fl_exact]
    set user := (counterDelta prev.user curr.user).toNat
    set sys := (counterDelta prev.system curr.system).toNat
    set idle := (counterDelta prev.idle curr.idle).toNat
    set total := (counterDelta (cpuTotalJiffies prev) (cpuTotalJiffies curr)).toNat
    have hpos : (0 : ℚ) < total := by
      have : total ≠ 0 := fun h0 => htotal (UInt64.toNat.inj h0)
      exact_mod_cast Nat.pos_of_ne_zero this
    have hidle := percentage_of_le (show idle ≤ total by omega)
    have husage : Percentage (100 - 100 * ((idle : ℚ) / total)) := by
      obtain ⟨h0, h100⟩ := hidle
      constructor <;> linarith
    have hwhole : ((user : ℚ) + sys + idle) / total ≤ 1 := by
      rw [div_le_one hpos]
      exact_mod_cast hle
    rw [clampDouble_of_percentage husage, clampDouble_of_percentage (percentage_of_le (by omega)),
      clampDouble_of_percentage (percentage_of_le (by omega))]
    rw [add_div, add_div] at hwhole
    linarith

/-- **Every percentage is one**, usage and idle make 100 in exact arithmetic, and the
cores without a partner are left at 0. With counters that grew, and sums that did not
wrap, user and system are part of the usage. -/
theorem cpu_compute_stats_percentages (prev curr : CpuSnapshot) :
    ∃ stats, cpuComputeStats prev curr = some stats ∧
      (Percentage stats.usagePct ∧ Percentage stats.userPct ∧ Percentage stats.systemPct ∧
        Percentage stats.idlePct ∧ stats.usagePct + stats.idlePct = 100) ∧
      stats.coreCount = min prev.cores.length curr.cores.length ∧
      stats.coreUsagePct.length = stats.coreCount ∧
      coreUsageArray prev curr =
        stats.coreUsagePct ++ List.replicate (MAX_CORES - stats.coreCount) 0 ∧
      (∀ usage ∈ coreUsageArray prev curr, Percentage usage) ∧
      (Grown prev.total curr.total → jiffies prev.total < 2 ^ 64 → jiffies curr.total < 2 ^ 64 →
        stats.userPct + stats.systemPct ≤ stats.usagePct) := by
  obtain ⟨husage, huser, hsystem, hidle⟩ := cpuPctFromDelta_percentages prev.total curr.total
  exact ⟨_, rfl, ⟨husage, huser, hsystem, hidle, cpuPctFromDelta_complement prev.total curr.total⟩, rfl,
    List.length_zipWith, coreUsageArray_eq prev curr, coreUsageArray_percentages prev curr,
    cpuPctFromDelta_parts⟩

def sampleTimes (user idle : UInt64) : CpuTimes := ⟨user, 0, 0, idle, 0, 0, 0, 0⟩

/-- One core of two stays; the second counter of that core was reset. -/
theorem cpu_compute_stats_percentages_example :
    let prev : CpuSnapshot := ⟨sampleTimes 10 30, [sampleTimes 5 9, sampleTimes 5 15], by decide⟩
    let curr : CpuSnapshot := ⟨sampleTimes 40 100, [sampleTimes 25 4], by decide⟩
    ∃ stats, cpuComputeStats prev curr = some stats ∧ stats.userPct + stats.systemPct ≤ stats.usagePct := by
  intro prev curr
  obtain ⟨stats, hstats, -, -, -, -, -, hparts⟩ := cpu_compute_stats_percentages prev curr
  have hgrown : Grown prev.total curr.total := by
    constructor <;> decide
  exact ⟨stats, hstats, hparts hgrown (by decide) (by decide)⟩

end Exact

end Syswatch.CpuUsage
