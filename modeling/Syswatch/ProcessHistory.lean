import Syswatch.CpuUsage
import Syswatch.Lib.Machine
import Syswatch.ProcessList

/-! # The process list over many calls

What a call computes for the processes it scans depends on the process tables
alone. How the lists were sorted and cut leaves no trace. -/

namespace Syswatch.ProcessHistory
open Lib.CText Lib.Machine ProcStat ProcessList

/-! ## The scan -/

/-- The processes a scan takes: the first ones that can be read. -/
def scannedProcesses (entries : List DirEntry) : List ProcessRead :=
  (entries.filterMap readProcess).take MAX_PROCESSES

/-- What is remembered of a process. -/
def tickOf (p : ProcessRead) : Int32 × UInt64 := (p.pid, p.ticks)

/-- The two arrays fill up together. -/
theorem scanLoop_eq (prev : List (Int32 × UInt64)) (totalDelta : UInt64) (entries : List DirEntry)
    {items : List ProcessEntry} {ticks : List (Int32 × UInt64)} (h : ticks.length = items.length) :
    scanLoop prev totalDelta entries items ticks =
      (items ++ ((entries.filterMap readProcess).take (MAX_PROCESSES - items.length)).map
          (entryOf prev totalDelta),
        ticks ++ ((entries.filterMap readProcess).take (MAX_PROCESSES - items.length)).map tickOf) := by
  induction entries generalizing items ticks with
  | nil => simp [scanLoop]
  | cons e rest ih =>
    rw [scanLoop]
    by_cases hroom : items.length < MAX_PROCESSES
    · rw [if_pos hroom]
      cases hread : readProcess e with
      | none =>
        dsimp only
        rw [ih h, List.filterMap_cons_none hread]
      | some p =>
        obtain ⟨m, hm⟩ : ∃ m, MAX_PROCESSES - items.length = m + 1 :=
          Nat.exists_eq_succ_of_ne_zero (by omega)
        dsimp only
        rw [if_pos (by omega), ih (by simp [h]), List.filterMap_cons_some hread, hm,
          List.length_append, List.length_singleton,
          show MAX_PROCESSES - (items.length + 1) = m by omega, List.take_succ_cons, List.map_cons,
          List.map_cons, List.append_assoc, List.append_assoc]
        rfl
    · rw [if_neg hroom, show MAX_PROCESSES - items.length = 0 by omega]
      simp

theorem scanLoop_start (prev : List (Int32 × UInt64)) (totalDelta : UInt64) (entries : List DirEntry) :
    scanLoop prev totalDelta entries [] [] =
      ((scannedProcesses entries).map (entryOf prev totalDelta),
        (scannedProcesses entries).map tickOf) := scanLoop_eq prev totalDelta entries rfl

/-- `total_delta`. -/
def totalDelta (g : Globals) (totalCpu : UInt64) : UInt64 :=
  if g.prevInitialized && totalCpu ≥ g.prevTotalCpu then totalCpu - g.prevTotalCpu else 0

/-! ## One call -/

variable (qsort : (ProcessEntry → ProcessEntry → Int) → List ProcessEntry → List ProcessEntry)

structure Call where
  table : ProcTable
  sortMode : ProcessSortMode
  limit : Int32

def call (g : Globals) (c : Call) : Reply × Globals :=
  processReadList qsort g c.table c.sortMode c.limit

/-- The total and the processes, where the call comes as far as the scan. -/
def found (table : ProcTable) : Option (UInt64 × List ProcessRead) :=
  (readTotalCpuJiffies table.locals table.stat).bind fun totalCpu =>
    table.dir.map fun entries => (totalCpu, scannedProcesses entries)

/-- The globals after a scan. -/
structure Remembers (g : Globals) (totalCpu : UInt64) (processes : List ProcessRead) : Prop where
  ticks : g.prevTicks = processes.map tickOf
  total : g.prevTotalCpu = totalCpu
  initialized : g.prevInitialized = true

variable {qsort}

theorem limit_cases (limit : Int32) : 0 < limit ∨ limit ≤ 0 :=
  (Decidable.em (0 < limit)).imp_right Int32.not_lt.mp

theorem call_nonpos (g : Globals) {c : Call} (h : c.limit ≤ 0) :
    call qsort g c = (⟨[], some []⟩, g) := if_pos h

theorem call_failed (g : Globals) {c : Call} (h : 0 < c.limit) (hfound : found c.table = none) :
    call qsort g c = (⟨[], none⟩, g) := by
  rw [call, processReadList, if_neg (by simpa using h)]
  rw [found] at hfound
  cases htotal : readTotalCpuJiffies c.table.locals c.table.stat with
  | none => rfl
  | some totalCpu =>
    cases hdir : c.table.dir with
    | none => rfl
    | some entries =>
      rw [htotal, hdir] at hfound
      cases hfound

variable (qsort) in
theorem call_scanned (g : Globals) {c : Call} (h : 0 < c.limit) {totalCpu : UInt64}
    {processes : List ProcessRead} (hfound : found c.table = some (totalCpu, processes)) :
    (call qsort g c).1.scanned =
        processes.map (entryOf g.prevTicks (totalDelta g totalCpu)) ∧
      (call qsort g c).1.returned.isSome ∧
      Remembers (call qsort g c).2 totalCpu processes := by
  obtain ⟨total, htotal, hrest⟩ := Option.bind_eq_some_iff.mp hfound
  obtain ⟨entries, hdir, hpair⟩ := Option.map_eq_some_iff.mp hrest
  cases hpair
  have hscan := scanLoop_start g.prevTicks (totalDelta g totalCpu) entries
  rw [call, processReadList, if_neg (by simpa using h), htotal, hdir]
  exact ⟨congrArg Prod.fst hscan, rfl, congrArg Prod.snd hscan, rfl, rfl⟩

theorem Remembers.unique {g g' : Globals} {totalCpu : UInt64} {processes : List ProcessRead}
    (h : Remembers g totalCpu processes) (h' : Remembers g' totalCpu processes) : g = g' := by
  cases g
  cases g'
  obtain ⟨hticks, htotal, hinit⟩ := h
  obtain ⟨hticks', htotal', hinit'⟩ := h'
  cases hticks.trans hticks'.symm
  cases htotal.trans htotal'.symm
  cases hinit.trans hinit'.symm
  rfl

theorem entryOf_percentage (prev : List (Int32 × UInt64)) (totalDelta : UInt64) (p : ProcessRead) :
    CpuUsage.Percentage (entryOf prev totalDelta p).cpuPct := CpuUsage.clampDouble_percentage _

theorem call_percentages (g : Globals) (c : Call) :
    ∀ e ∈ (call qsort g c).1.scanned, CpuUsage.Percentage e.cpuPct := by
  rcases limit_cases c.limit with hpos | hneg
  · cases hfound : found c.table with
    | none => simp [call_failed g hpos hfound]
    | some r =>
      rw [(call_scanned qsort g hpos hfound).1]
      intro e he
      obtain ⟨p, -, rfl⟩ := List.mem_map.mp he
      exact entryOf_percentage _ _ p
  · simp [call_nonpos g hneg]

/-! ## Two runs -/

/-- Two calls that find the same, in the files and in the variables that
`read_total_cpu_jiffies` does not set before it reads; both lists may be sorted and cut
in any way, unless no list is wanted at all. -/
structure SameTables (c c' : Call) : Prop where
  table : c.table = c'.table
  wanted : 0 < c.limit ↔ 0 < c'.limit

theorem call_same {qsort' : (ProcessEntry → ProcessEntry → Int) → List ProcessEntry → List ProcessEntry}
    (g : Globals) {c c' : Call} (h : SameTables c c') :
    (call qsort g c).1.scanned = (call qsort' g c').1.scanned ∧
      (call qsort g c).2 = (call qsort' g c').2 := by
  rcases limit_cases c.limit with hpos | hneg
  · have hpos' := h.wanted.mp hpos
    cases hfound : found c.table with
    | none =>
      rw [call_failed g hpos hfound, call_failed g hpos' (h.table ▸ hfound)]
      exact ⟨rfl, rfl⟩
    | some r =>
      obtain ⟨hscan, -, hnext⟩ := call_scanned qsort g hpos hfound
      obtain ⟨hscan', -, hnext'⟩ := call_scanned qsort' g hpos' (h.table ▸ hfound)
      exact ⟨hscan.trans hscan'.symm, hnext.unique hnext'⟩
  · have hneg' : c'.limit ≤ 0 := Int32.not_lt.mp fun hpos' => Int32.not_lt.mpr hneg (h.wanted.mpr hpos')
    rw [call_nonpos g hneg, call_nonpos g hneg']
    exact ⟨rfl, rfl⟩

variable (qsort)

/-- **The percentages do not depend on how lists were sorted and cut**: two runs
over the same tables compute the same ones, all of them between 0 and 100. A
call without a list or with a failure remembers nothing; any other call
remembers the ticks of all processes it scanned. -/
theorem percentages_independent
    (qsort' : (ProcessEntry → ProcessEntry → Int) → List ProcessEntry → List ProcessEntry) :
    (∀ g calls calls', List.Forall₂ SameTables calls calls' →
      List.Forall₂ (fun r r' => r.scanned = r'.scanned) (trace (call qsort) g calls).1
          (trace (call qsort') g calls').1 ∧
        (trace (call qsort) g calls).2 = (trace (call qsort') g calls').2) ∧
    (∀ g calls, ∀ r ∈ (trace (call qsort) g calls).1, ∀ e ∈ r.scanned,
      0 ≤ e.cpuPct ∧ e.cpuPct ≤ 100) ∧
    ∀ g c, (c.limit ≤ 0 ∨ (call qsort g c).1.returned = none → (call qsort g c).2 = g) ∧
      (0 < c.limit → (call qsort g c).1.returned ≠ none → ∃ totalCpu entries,
        readTotalCpuJiffies c.table.locals c.table.stat = some totalCpu ∧
        c.table.dir = some entries ∧
        (call qsort g c).1.scanned =
          (scannedProcesses entries).map (entryOf g.prevTicks (totalDelta g totalCpu)) ∧
        Remembers (call qsort g c).2 totalCpu (scannedProcesses entries)) := by
  refine ⟨?_, ?_, ?_⟩
  · intro g calls calls' h
    refine trace_related (R := Eq) ?_ h rfl
    rintro g _ c c' hc rfl
    exact call_same g hc
  · intro g calls
    exact trace_replies call_percentages calls g
  · intro g c
    constructor
    · rintro (hneg | hfailed)
      · rw [call_nonpos g hneg]
      · rcases limit_cases c.limit with hpos | hneg
        · cases hfound : found c.table with
          | none => rw [call_failed g hpos hfound]
          | some r =>
            have hsome := (call_scanned qsort g hpos hfound).2.1
            rw [hfailed] at hsome
            cases hsome
        · rw [call_nonpos g hneg]
    · intro hpos hreturned
      cases hfound : found c.table with
      | none => exact absurd (by rw [call_failed g hpos hfound]) hreturned
      | some r =>
        obtain ⟨hscan, -, hnext⟩ := call_scanned qsort g hpos hfound
        obtain ⟨total, htotal, hrest⟩ := Option.bind_eq_some_iff.mp hfound
        obtain ⟨entries, hdir, rfl⟩ := Option.map_eq_some_iff.mp hrest
        exact ⟨total, entries, htotal, hdir, hscan, hnext⟩

/-- One process twice, sorted by the processor and by the memory. -/
theorem percentages_independent_example :
    let table (total process : String) : ProcTable := ⟨some (ascii total), zeroTimes,
      some [⟨ascii "7", some (ascii process), some (ascii "VmRSS:\t 4 kB\n")⟩]⟩
    let first := table "cpu  10 0 10 80 0 0 0 0\n" "7 (sh) S 1 7 7 0 -1 4 0 0 0 0 5 3 0 0\n"
    let second := table "cpu  30 0 20 150 0 0 0 0\n" "7 (sh) S 1 7 7 0 -1 4 0 0 0 0 30 8 0 0\n"
    List.Forall₂ (fun r r' => r.scanned = r'.scanned)
      (trace (call fun _ l => l) Globals.start [⟨first, .cpu, 5⟩, ⟨second, .mem, 1⟩]).1
      (trace (call fun _ l => l.reverse) Globals.start [⟨first, .mem, 1⟩, ⟨second, .cpu, 20⟩]).1 := by
  intro table first second
  have hsame : List.Forall₂ SameTables [⟨first, .cpu, 5⟩, ⟨second, .mem, 1⟩]
      [⟨first, .mem, 1⟩, ⟨second, .cpu, 20⟩] := .cons ⟨rfl, by decide⟩ (.cons ⟨rfl, by decide⟩ .nil)
  exact ((percentages_independent (fun _ l => l) fun _ l => l.reverse).1 Globals.start _ _ hsame).1

end Syswatch.ProcessHistory
