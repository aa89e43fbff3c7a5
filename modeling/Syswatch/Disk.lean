import Syswatch.Deltas
import Syswatch.Utils

/-! # Disk counters and rates (`disk.c`) -/

namespace Syswatch
open Lib.CText

/-! ## Rates -/

def DISK_SECTOR_SIZE : ℚ := 512

def diskKind : CounterKind DiskCounter DiskRateEntry where
  name := DiskCounter.name
  first := DiskCounter.sectorsRead
  second := DiskCounter.sectorsWritten
  unit := DISK_SECTOR_SIZE
  unit_pow := ⟨9, by norm_num [DISK_SECTOR_SIZE]⟩
  entry := DiskRateEntry.mk
  rates e := (e.name, e.readBps, e.writeBps)
  rates_entry _ _ _ := rfl

section Rates
variable [Lib.Rounding]

/-- `disk_compute_stats`; `none` is its -1. -/
def diskComputeStats (intervalSec : Int32) (prev curr : DiskSnapshot) : Option DiskStats :=
  if intervalSec ≤ 0 then none
  else some {
    items := diskKind.computeLoop prev.items intervalSec.toInt MAX_DISKS curr.items []
    bound := diskKind.computeLoop_length_le _ _ _ _ _ (Nat.zero_le _) }

/-- The output array is as long as the snapshot's, so every match fits. -/
theorem diskComputeStats_eq {intervalSec : Int32} (h : 0 < intervalSec) (prev curr : DiskSnapshot) :
    ∃ stats, diskComputeStats intervalSec prev curr = some stats ∧
      stats.items = diskKind.averaged intervalSec.toInt prev.items curr.items := by
  have hpos : ¬ intervalSec ≤ 0 := by simpa using h
  refine ⟨_, if_neg hpos, ?_⟩
  exact diskKind.computeLoop_eq prev.items intervalSec.toInt MAX_DISKS curr.items []
    (by simpa using curr.bound)

theorem diskComputeStats_averaged {intervalSec : Int32} (hi : 0 < intervalSec)
    {prev curr : DiskSnapshot} {stats : DiskStats}
    (h : diskComputeStats intervalSec prev curr = some stats) :
    stats.items = diskKind.averaged intervalSec.toInt prev.items curr.items := by
  obtain ⟨s, hs, hitems⟩ := diskComputeStats_eq hi prev curr
  rw [hs, Option.some.injEq] at h
  exact h ▸ hitems

/-- There are statistics only for a positive interval. -/
theorem diskComputeStats_pos {intervalSec : Int32} {prev curr : DiskSnapshot} {stats : DiskStats}
    (h : diskComputeStats intervalSec prev curr = some stats) : 0 < intervalSec := by
  by_contra hneg
  rw [diskComputeStats, if_pos (by simpa using hneg)] at h
  cases h

end Rates

/-! ## Reading `/proc/diskstats` -/

def isAlphaOnlySuffix (s : Bytes) : Bool := s.all isAlpha

/-- `"nvme%dn%d%c"`. -/
def nvmeFormat : List Directive := [.chars (ascii "nvme"), .int, .chars (ascii "n"), .int, .char]

/-- `"mmcblk%d%c"`. -/
def mmcblkFormat : List Directive := [.chars (ascii "mmcblk"), .int, .char]

/-- `is_whole_disk_name`: a disk, not one of its partitions. -/
def isWholeDiskName (name : Bytes) : Bool :=
  if name = [] then false
  else if ascii "sd" <+: name ∨ ascii "hd" <+: name ∨ ascii "vd" <+: name then
    isAlphaOnlySuffix (name.drop 2)
  else if ascii "xvd" <+: name then isAlphaOnlySuffix (name.drop 3)
  else if ascii "nvme" <+: name ∧ sscanf nvmeFormat name = 2 then true
  else if ascii "mmcblk" <+: name ∧ sscanf mmcblkFormat name = 1 then true
  else false

/-- The local variables of one line. -/
structure DiskLine where
  field : Nat
  name : Option Bytes
  sectorsRead : UInt64
  sectorsWritten : UInt64

/-- The loop over the tokens of a line. It breaks at a counter `parse_ull`
refuses and after the tenth token; a refused tenth token still counts as a
field. -/
def diskTokens (l : DiskLine) : List Bytes → DiskLine
  | [] => l
  | token :: rest =>
    let l := { l with field := l.field + 1 }
    if l.field = 3 then diskTokens { l with name := some token } rest
    else if l.field = 6 then
      match parseUll token with
      | none => l
      | some v => diskTokens { l with sectorsRead := v } rest
    else if l.field = 10 then
      match parseUll token with
      | none => l
      | some v => { l with sectorsWritten := v }
    else diskTokens l rest

/-- The words of a line. -/
def diskWords (line : Bytes) : List Bytes :=
  strtokAll (fun b => b == 32 || b == 9) [] (trimWhitespace (cstr line))

/-- The counter of one line, if the line gives one. -/
def diskCounter (line : Bytes) : Option DiskCounter :=
  if trimWhitespace (cstr line) = [] then none
  else
    let l := diskTokens ⟨0, none, 0, 0⟩ (diskWords line)
    if l.field < 10 then none
    else match l.name with
      | none => none
      | some name =>
        if !isWholeDiskName name then none
        else some ⟨CString.ofBytes 32 name, l.sectorsRead, l.sectorsWritten⟩

/-- The loop over the lines. -/
def diskLines : List Bytes → List DiskCounter → List DiskCounter
  | [], out => out
  | line :: rest, out =>
    if out.length < MAX_DISKS then
      match diskCounter line with
      | none => diskLines rest out
      | some c => diskLines rest (out ++ [c])
    else out

theorem diskLines_length_le (lines : List Bytes) (out : List DiskCounter)
    (h : out.length ≤ MAX_DISKS) : (diskLines lines out).length ≤ MAX_DISKS := by
  induction lines generalizing out with
  | nil => exact h
  | cons line rest ih =>
    rw [diskLines]
    split
    · split
      · exact ih out h
      · exact ih _ (by rw [List.length_append, List.length_singleton]; omega)
    · exact h

/-- `disk_read_snapshot` on the contents of `/proc/diskstats`, `none` when it
cannot be opened. -/
def diskReadSnapshot (contents : Option Bytes) : Option DiskSnapshot :=
  match contents with
  | none => none
  | some text => some {
      items := diskLines (fgetsAll 512 [] text) []
      bound := diskLines_length_le _ _ (Nat.zero_le _) }

end Syswatch
