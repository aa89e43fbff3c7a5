import Syswatch.Lib.Rounding
import Syswatch.Types

/-! # CPU percentages (`cpu.c`)

The arithmetic on `double` is that of any rounding. -/

namespace Syswatch
open Lib.Rounding

def clampDouble (val min max : ℚ) : ℚ :=
  if val < min then min else if val > max then max else val

/-- The sum wraps as C's unsigned addition does. -/
def cpuTotalJiffies (t : CpuTimes) : UInt64 :=
  t.user + t.nice + t.system + t.idle + t.iowait + t.irq + t.softirq + t.steal

/-- `(curr >= prev) ? (curr - prev) : 0` on unsigned counters. -/
def counterDelta (prev curr : UInt64) : UInt64 := if curr ≥ prev then curr - prev else 0

theorem counterDelta_toNat (prev curr : UInt64) :
    (counterDelta prev curr).toNat = curr.toNat - prev.toNat := by
  unfold counterDelta
  split
  · rename_i h
    exact UInt64.toNat_sub_of_le _ _ h
  · rename_i h
    rw [ge_iff_le, UInt64.le_iff_toNat_le] at h
    simp
    omega

variable [Lib.Rounding]

/-- `cpu_pct_from_delta`: the usage, user, system and idle percentages. -/
def cpuPctFromDelta (prev curr : CpuTimes) : ℚ × ℚ × ℚ × ℚ :=
  let total := counterDelta (cpuTotalJiffies prev) (cpuTotalJiffies curr)
  let idle := counterDelta prev.idle curr.idle
  let user := counterDelta prev.user curr.user
  let sys := counterDelta prev.system curr.system
  if total = 0 then (0, 0, 0, 100)
  else
    let idlePct := fl (100 * fl (fl idle.toNat / fl total.toNat))
    let usagePct := fl (100 - idlePct)
    let userPct := fl (100 * fl (fl user.toNat / fl total.toNat))
    let systemPct := fl (100 * fl (fl sys.toNat / fl total.toNat))
    (clampDouble usagePct 0 100, clampDouble userPct 0 100, clampDouble systemPct 0 100,
      clampDouble idlePct 0 100)

/-- `cpu_compute_stats`. It fails on null pointers only; the usage of a core is
kept for the cores both snapshots have. -/
def cpuComputeStats (prev curr : CpuSnapshot) : Option CpuStats :=
  let (usage, user, system, idle) := cpuPctFromDelta prev.total curr.total
  let cores := List.zipWith (fun p c => (cpuPctFromDelta p c).1) prev.cores curr.cores
  some {
    usagePct := usage, userPct := user, systemPct := system, idlePct := idle
    coreCount := min prev.cores.length curr.cores.length
    coreUsagePct := cores }

end Syswatch
