import Syswatch.Lib.Selection
import Syswatch.ProcessHistory

/-! # Which processes a list shows

The scanned processes are sorted and cut. What is returned is then a selection
of them by the chosen key, for every `qsort` that keeps its contract. -/

namespace Syswatch.ProcessRanking
open Lib.CText Lib.Selection ProcStat ProcessList ProcessHistory

/-- One entry has no smaller key than the other. -/
def MayPrecede : ProcessSortMode → ProcessEntry → ProcessEntry → Prop
  | .cpu, a, b => b.cpuPct ≤ a.cpuPct
  | .mem, a, b => b.memBytes ≤ a.memBytes

/-- The comparison function of a mode. -/
def comparison (mode : ProcessSortMode) : ProcessEntry → ProcessEntry → Int :=
  if mode = .mem then cmpMemDesc else cmpCpuDesc

theorem cmpMemDesc_eq : cmpMemDesc = descending fun e => e.memBytes.toNat := by
  funext a b
  simp only [cmpMemDesc, descending, gt_iff_lt, UInt64.lt_iff_toNat_lt]

theorem comparison_weakOrder (mode : ProcessSortMode) : WeakOrder (comparison mode) := by
  cases mode with
  | cpu => exact descending_weakOrder ProcessEntry.cpuPct
  | mem =>
    rw [comparison, if_pos rfl, cmpMemDesc_eq]
    exact descending_weakOrder _

theorem comparison_nonpos_iff (mode : ProcessSortMode) (a b : ProcessEntry) :
    comparison mode a b ≤ 0 ↔ MayPrecede mode a b := by
  cases mode with
  | cpu => exact descending_nonpos_iff ProcessEntry.cpuPct a b
  | mem =>
    rw [comparison, if_pos rfl, cmpMemDesc_eq, descending_nonpos_iff]
    exact UInt64.le_iff_toNat_le.symm

/-! ## The call -/

variable {qsort : (ProcessEntry → ProcessEntry → Int) → List ProcessEntry → List ProcessEntry}

/-- What is cut off lies behind the limit or behind the size of the array. -/
theorem call_returned (g : Globals) {c : ProcessHistory.Call} (h : 0 < c.limit) {returned : List ProcessEntry}
    (hreturned : (call qsort g c).1.returned = some returned) :
    ∃ totalCpu entries, readTotalCpuJiffies c.table.locals c.table.stat = some totalCpu ∧
      c.table.dir = some entries ∧
      returned = (qsort (comparison c.sortMode) ((scannedProcesses entries).map
        (entryOf g.prevTicks (totalDelta g totalCpu)))).take
          (min c.limit.toInt.toNat MAX_PROCESSES) := by
  rw [call, processReadList, if_neg (by simpa using h)] at hreturned
  cases htotal : readTotalCpuJiffies c.table.locals c.table.stat with
  | none =>
    rw [htotal] at hreturned
    cases hreturned
  | some totalCpu =>
    cases hdir : c.table.dir with
    | none =>
      rw [htotal, hdir] at hreturned
      cases hreturned
    | some entries =>
      refine ⟨totalCpu, entries, rfl, rfl, ?_⟩
      rw [htotal, hdir] at hreturned
      have hscan : (scanLoop g.prevTicks (totalDelta g totalCpu) entries [] []).1 =
          (scannedProcesses entries).map (entryOf g.prevTicks (totalDelta g totalCpu)) :=
        congrArg Prod.fst (scanLoop_start g.prevTicks (totalDelta g totalCpu) entries)
      have hlimit : (if c.limit.toInt > (MAX_PROCESSES : Int) then MAX_PROCESSES else c.limit.toInt.toNat) =
          min c.limit.toInt.toNat MAX_PROCESSES := by
        split <;> omega
      have hsorted : ∀ l, (if c.sortMode = .mem then qsort cmpMemDesc l else qsort cmpCpuDesc l) =
          qsort (comparison c.sortMode) l := by
        intro l
        unfold comparison
        split <;> rfl
      have htake (l : List ProcessEntry) (k : Nat) : (if l.length > k then l.take k else l) = l.take k := by
        split
        · rfl
        · rw [List.take_of_length_le (by omega)]
      dsimp only at hreturned
      rw [← totalDelta, hscan, hsorted, hlimit, htake] at hreturned
      exact (Option.some.inj hreturned).symm

/-- **The list shows the first of what was scanned**: as many as are wanted and
there are, each with its own values, the greatest keys first, and nothing left
out that has a greater key than what is shown. -/
theorem process_read_list_selects (hqsort : Sorts qsort) (g : Globals) {c : ProcessHistory.Call}
    (hlimit : 1 ≤ c.limit.toInt) {returned : List ProcessEntry}
    (hreturned : (call qsort g c).1.returned = some returned) :
    ∃ (totalCpu : UInt64) (entries : List DirEntry) (kept left : List ProcessRead),
      readTotalCpuJiffies c.table.locals c.table.stat = some totalCpu ∧
      c.table.dir = some entries ∧
      returned = kept.map (entryOf g.prevTicks (totalDelta g totalCpu)) ∧
      returned.length =
        min (min c.limit.toInt.toNat MAX_PROCESSES) (scannedProcesses entries).length ∧
      (scannedProcesses entries).length =
        min MAX_PROCESSES (entries.filterMap readProcess).length ∧
      (kept ++ left).Perm (scannedProcesses entries) ∧
      (((scannedProcesses entries).map ProcessRead.pid).Nodup → (returned.map ProcessEntry.pid).Nodup) ∧
      returned.Pairwise (MayPrecede c.sortMode) ∧
      ∀ p ∈ kept, ∀ q ∈ left, MayPrecede c.sortMode
        (entryOf g.prevTicks (totalDelta g totalCpu) p) (entryOf g.prevTicks (totalDelta g totalCpu) q) := by
  have hpos : 0 < c.limit := by
    rw [Int32.lt_iff_toInt_lt]
    exact hlimit
  obtain ⟨totalCpu, entries, htotal, hdir, rfl⟩ := call_returned g hpos hreturned
  have hselected := (hqsort.selected (comparison_weakOrder c.sortMode)
    ((scannedProcesses entries).map (entryOf g.prevTicks (totalDelta g totalCpu)))
    (min c.limit.toInt.toNat MAX_PROCESSES)).imp fun a b => (comparison_nonpos_iff c.sortMode a b).mp
  obtain ⟨kept, left, hkept, -, h⟩ := hselected.of_map
  refine ⟨totalCpu, entries, kept, left, htotal, hdir, hkept, ?_, List.length_take, h.perm, ?_,
    hselected.sorted, h.first⟩
  · rw [hkept, List.length_map, h.length]
  · intro hpids
    have hsub : (kept.map ProcessRead.pid).Nodup :=
      ((h.perm.map ProcessRead.pid).nodup_iff.mpr hpids).sublist
        ((List.sublist_append_left kept left).map _)
    rw [hkept, List.map_map]
    exact hsub

/-- A sort that keeps the contract. -/
def mergeSort (cmp : ProcessEntry → ProcessEntry → Int) (l : List ProcessEntry) : List ProcessEntry :=
  l.mergeSort fun a b => cmp a b ≤ 0

theorem mergeSort_sorts : Sorts mergeSort := by
  intro cmp hcmp l
  refine ⟨List.mergeSort_perm _ _, ?_⟩
  have hsorted := @List.pairwise_mergeSort _ (fun a b => decide (cmp a b ≤ 0))
    (fun a b c hab hbc => by
      rw [decide_eq_true_iff] at hab hbc ⊢
      exact hcmp.trans a b c hab hbc)
    (fun a b => by
      rw [Bool.or_eq_true, decide_eq_true_iff, decide_eq_true_iff]
      have := hcmp.swap a b
      omega) l
  exact hsorted.imp of_decide_eq_true

/-- One of three processes is cut off, and one that cannot be read is passed over. -/
theorem process_read_list_selects_example :
    let process (name stat : String) (size : String) : DirEntry :=
      ⟨ascii name, some (ascii stat), some (ascii size)⟩
    let table : ProcTable := ⟨some (ascii "cpu  10 0 10 80 0 0 0 0\n"), zeroTimes,
      some [process "7" "7 (sh) S 1 7 7 0 -1 4 0 0 0 0 5 3 0 0\n" "VmRSS:\t 4 kB\n",
        ⟨ascii "8", none, none⟩,
        process "9" "9 (init) S 1 9 9 0 -1 4 0 0 0 0 5 3 0 0\n" "VmRSS:\t 12 kB\n",
        process "11" "11 (cat) S 1 11 11 0 -1 4 0 0 0 0 5 3 0 0\n" "VmRSS:\t 8 kB\n"]⟩
    ∃ returned, (call mergeSort Globals.start ⟨table, .mem, 2⟩).1.returned = some returned ∧
      returned.length = 2 ∧ returned.Pairwise (MayPrecede .mem) := by
  intro process table
  obtain ⟨returned, hreturned⟩ := Option.isSome_iff_exists.mp
    (show (call mergeSort Globals.start ⟨table, .mem, 2⟩).1.returned.isSome by decide +kernel)
  obtain ⟨totalCpu, entries, kept, left, -, hdir, -, hlength, -, -, -, hsorted, -⟩ :=
    process_read_list_selects mergeSort_sorts Globals.start (by decide) hreturned
  cases hdir
  exact ⟨returned, hreturned, hlength.trans (by decide +kernel), hsorted⟩

end Syswatch.ProcessRanking
