import Syswatch.Cpu
import Syswatch.Lib.Scanf

/-! # Reading `/proc/stat` (`cpu.c`, `process.c`)

`sscanf` stores into local variables that nothing has set before. What these
hold is a parameter here, for each turn of the loop, since its body declares
them anew. -/

namespace Syswatch.ProcStat
open Lib.CText Lib.Scanf

/-- `" %llu %llu %llu %llu %llu %llu %llu %llu"`. -/
def countersFormat : List Part :=
  [.blanks, .ull, .blanks, .ull, .blanks, .ull, .blanks, .ull, .blanks, .ull, .blanks, .ull,
    .blanks, .ull, .blanks, .ull]

def cpuFormat : List Part := literal (ascii "cpu") ++ countersFormat

/-- `"cpu%*d %llu …"`. -/
def coreFormat : List Part := literal (ascii "cpu") ++ .skipInt :: countersFormat

/-- The local variables after `sscanf` has stored the first of them. -/
def store (t : CpuTimes) (read : List UInt64) : CpuTimes where
  user := read.getD 0 t.user
  nice := read.getD 1 t.nice
  system := read.getD 2 t.system
  idle := read.getD 3 t.idle
  iowait := read.getD 4 t.iowait
  irq := read.getD 5 t.irq
  softirq := read.getD 6 t.softirq
  steal := read.getD 7 t.steal

def zeroTimes : CpuTimes := ⟨0, 0, 0, 0, 0, 0, 0, 0⟩

/-- The loop of `cpu_read_snapshot`. -/
def statLoop (parsed : Nat → CpuTimes) : Nat → List Bytes → CpuTimes → List CpuTimes →
    CpuTimes × List CpuTimes
  | _, [], total, cores => (total, cores)
  | turn, line :: rest, total, cores =>
    let text := cstr line
    if ascii "cpu " <+: text then
      let read := numbers cpuFormat text
      if 4 ≤ read.length then statLoop parsed (turn + 1) rest (store (parsed turn) read) cores
      else statLoop parsed (turn + 1) rest total cores
    else if ascii "cpu" <+: text ∧ (text.drop 3).head?.any isDigit ∧ cores.length < MAX_CORES then
      let read := numbers coreFormat text
      if 4 ≤ read.length then
        statLoop parsed (turn + 1) rest total (cores ++ [store (parsed turn) read])
      else statLoop parsed (turn + 1) rest total cores
    else if ascii "intr" <+: text then (total, cores)
    else statLoop parsed (turn + 1) rest total cores

theorem statLoop_cores_le (parsed : Nat → CpuTimes) (turn : Nat) (lines : List Bytes)
    (total : CpuTimes) {cores : List CpuTimes} (h : cores.length ≤ MAX_CORES) :
    (statLoop parsed turn lines total cores).2.length ≤ MAX_CORES := by
  induction lines generalizing turn total cores with
  | nil => exact h
  | cons line rest ih =>
    rw [statLoop]
    dsimp only
    split_ifs with htotal _ hcore
    · exact ih _ _ h
    · exact ih _ _ h
    · have hroom := hcore.2.2
      exact ih _ _ (by rw [List.length_append, List.length_singleton]; omega)
    · exact ih _ _ h
    · exact h
    · exact ih _ _ h

/-- `cpu_read_snapshot`; `none` when the file cannot be opened. -/
def cpuReadSnapshot (parsed : Nat → CpuTimes) (contents : Option Bytes) : Option CpuSnapshot :=
  match contents with
  | none => none
  | some text =>
    let read := statLoop parsed 0 (fgetsAll 512 [] text) zeroTimes []
    some ⟨read.1, read.2, statLoop_cores_le parsed 0 _ _ (Nat.zero_le _)⟩

/-- `read_total_cpu_jiffies` with its eight locals; `none` is its -1. -/
def readTotalCpuJiffies (locals : CpuTimes) (contents : Option Bytes) : Option UInt64 :=
  contents.bind fun text => (fgetsAll 512 [] text).head?.bind fun line =>
    let read := numbers cpuFormat (cstr line)
    if read.length < 4 then none else some (cpuTotalJiffies (store locals read))

end Syswatch.ProcStat
