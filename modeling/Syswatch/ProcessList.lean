import Syswatch.ProcStat
import Syswatch.Utils

/-! # The process list (`process.c`)

A process table is what one call finds: `/proc/stat`, the entries of `/proc` in
the order of `readdir`, and for each entry the two files of its process at the
time they are read. The ticks of the last call are in global variables. -/

namespace Syswatch.ProcessList
open Lib.CText Lib.Rounding Lib.Scanf ProcStat

def MAX_PROCESSES : Nat := 2048

structure ProcessEntry where
  pid : Int32
  comm : CString 64
  cpuPct : ℚ
  memBytes : UInt64
  deriving DecidableEq

/-- An entry of `/proc` with the contents of `stat` and `status` below it, `none`
for a file that cannot be opened. -/
structure DirEntry where
  name : Bytes
  stat : Option Bytes
  status : Option Bytes

/-- `locals` is what the uninitialised variables of `read_total_cpu_jiffies` hold. -/
structure ProcTable where
  stat : Option Bytes
  locals : CpuTimes
  dir : Option (List DirEntry)

/-! ## One process -/

def isPidName (name : Bytes) : Bool := name ≠ [] && name.all isDigit

/-- `atoi`: the value of `strtol`, converted to `int`. -/
def atoi (s : Bytes) : Int32 := Int32.ofInt (strtol s).value

def strchr (s : Bytes) (c : UInt8) : Option Nat := s.findIdx? (· == c)

def strrchr (s : Bytes) (c : UInt8) : Option Nat :=
  (s.reverse.findIdx? (· == c)).map fun k => s.length - 1 - k

/-- `read_process_stat`: the name between the first `(` and the last `)`, and the
sum of the twelfth and thirteenth of the words behind it; `none` is its -1. -/
def readProcessStat (contents : Option Bytes) : Option (CString 64 × UInt64) :=
  contents.bind fun file => (fgetsAll 1024 [] file).head?.bind fun piece =>
    let line := cstr piece
    (strchr line 40).bind fun lpar => (strrchr line 41).bind fun rpar =>
      if rpar ≤ lpar then none
      else if line.drop (rpar + 1) = [] then none
      else
        let comm := CString.ofBytes 64 ((line.take rpar).drop (lpar + 1))
        let tokens := (strtokAll (· == 32) [] (line.drop (rpar + 2))).take 64
        tokens[11]?.bind fun utime => tokens[12]?.bind fun stime =>
          (parseUll utime).bind fun u => (parseUll stime).map fun s => (comm, u + s)

/-- `"VmRSS: %llu kB"`. -/
def vmRssFormat : List Part :=
  literal (ascii "VmRSS:") ++ [.blanks, .ull, .blanks, .char 107, .char 66]

def vmRss (line : Bytes) : Option UInt64 :=
  match numbers vmRssFormat (cstr line) with
  | [kb] => some (kb * 1024)
  | _ => none

/-- `read_process_rss_bytes`: the first line that gives a size, or 0. -/
def readProcessRssBytes (contents : Option Bytes) : Option UInt64 :=
  contents.map fun file => ((fgetsAll 256 [] file).findSome? vmRss).getD 0

/-- What the scan reads of a process. -/
structure ProcessRead where
  pid : Int32
  comm : CString 64
  ticks : UInt64
  rss : UInt64

/-- The checks of the scan; `none` is a `continue`. -/
def readProcess (e : DirEntry) : Option ProcessRead :=
  if isPidName e.name then
    if atoi e.name ≤ 0 then none
    else (readProcessStat e.stat).bind fun (comm, ticks) =>
      (readProcessRssBytes e.status).map fun rss => ⟨atoi e.name, comm, ticks, rss⟩
  else none

/-! ## The scan -/

/-- The global variables. -/
structure Globals where
  prevTicks : List (Int32 × UInt64)
  bound : prevTicks.length ≤ MAX_PROCESSES
  prevTotalCpu : UInt64
  prevInitialized : Bool
  deriving DecidableEq

def Globals.start : Globals := ⟨[], Nat.zero_le _, 0, false⟩

/-- `find_prev_pid`: the ticks of the first entry with that pid. -/
def findPrevPid (prev : List (Int32 × UInt64)) (pid : Int32) : Option UInt64 :=
  (prev.find? fun t => t.1 = pid).map Prod.snd

def cpuPct (prev : List (Int32 × UInt64)) (totalDelta : UInt64) (p : ProcessRead) : ℚ :=
  let procDelta : UInt64 :=
    match findPrevPid prev p.pid with
    | none => 0
    | some ticks => counterDelta ticks p.ticks
  let cpu := if totalDelta > 0 then fl (100 * fl (fl procDelta.toNat / fl totalDelta.toNat)) else 0
  clampDouble cpu 0 100

def entryOf (prev : List (Int32 × UInt64)) (totalDelta : UInt64) (p : ProcessRead) : ProcessEntry :=
  ⟨p.pid, p.comm, cpuPct prev totalDelta p, p.rss⟩

/-- The loop over `readdir`, with the array of the entries and that of the ticks. -/
def scanLoop (prev : List (Int32 × UInt64)) (totalDelta : UInt64) :
    List DirEntry → List ProcessEntry → List (Int32 × UInt64) →
      List ProcessEntry × List (Int32 × UInt64)
  | [], items, ticks => (items, ticks)
  | e :: rest, items, ticks =>
    if items.length < MAX_PROCESSES then
      match readProcess e with
      | none => scanLoop prev totalDelta rest items ticks
      | some p =>
        scanLoop prev totalDelta rest (items ++ [entryOf prev totalDelta p])
          (if ticks.length < MAX_PROCESSES then ticks ++ [(p.pid, p.ticks)] else ticks)
    else (items, ticks)

theorem scanLoop_ticks_le (prev : List (Int32 × UInt64)) (totalDelta : UInt64)
    (entries : List DirEntry) (items : List ProcessEntry) (ticks : List (Int32 × UInt64))
    (h : ticks.length ≤ MAX_PROCESSES) :
    (scanLoop prev totalDelta entries items ticks).2.length ≤ MAX_PROCESSES := by
  induction entries generalizing items ticks with
  | nil => exact h
  | cons e rest ih =>
    rw [scanLoop]
    split
    · split
      · exact ih _ _ h
      · apply ih
        split
        · rw [List.length_append, List.length_singleton]
          omega
        · exact h
    · exact h

/-! ## Sorting -/

def cmpCpuDesc (a b : ProcessEntry) : Int :=
  if a.cpuPct < b.cpuPct then 1 else if a.cpuPct > b.cpuPct then -1 else 0

def cmpMemDesc (a b : ProcessEntry) : Int :=
  if a.memBytes < b.memBytes then 1 else if a.memBytes > b.memBytes then -1 else 0

/-- The array as it is after the scan, before it is sorted and cut, and what the
call returns: `none` is -1. -/
structure Reply where
  scanned : List ProcessEntry
  returned : Option (List ProcessEntry)

/-- `process_read_list`. The order in which `qsort` leaves equal entries is not
specified, so that `qsort` is a parameter. -/
def processReadList (qsort : (ProcessEntry → ProcessEntry → Int) → List ProcessEntry → List ProcessEntry)
    (g : Globals) (table : ProcTable) (sortMode : ProcessSortMode) (limit : Int32) :
    Reply × Globals :=
  if limit ≤ 0 then (⟨[], some []⟩, g)
  else
    let limit := if limit.toInt > MAX_PROCESSES then MAX_PROCESSES else limit.toInt.toNat
    match readTotalCpuJiffies table.locals table.stat, table.dir with
    | none, _ => (⟨[], none⟩, g)
    | some _, none => (⟨[], none⟩, g)
    | some totalCpu, some entries =>
      let totalDelta :=
        if g.prevInitialized && totalCpu ≥ g.prevTotalCpu then totalCpu - g.prevTotalCpu else 0
      let scan := scanLoop g.prevTicks totalDelta entries [] []
      let sorted := if sortMode = .mem then qsort cmpMemDesc scan.1 else qsort cmpCpuDesc scan.1
      (⟨scan.1, some (if sorted.length > limit then sorted.take limit else sorted)⟩,
        ⟨scan.2, scanLoop_ticks_le _ _ _ _ _ (Nat.zero_le _), totalCpu, true⟩)

end Syswatch.ProcessList
