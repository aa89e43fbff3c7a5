import Syswatch.Deltas
import Syswatch.Utils

/-! # Network counters and rates (`network.c`) -/

namespace Syswatch
open Lib.CText

/-! ## Rates -/

def netKind : CounterKind NetCounter NetRateEntry where
  name := NetCounter.name
  first := NetCounter.rxBytes
  second := NetCounter.txBytes
  unit := 1
  unit_pow := ⟨0, by norm_num⟩
  entry := NetRateEntry.mk
  rates e := (e.name, e.rxBps, e.txBps)
  rates_entry _ _ _ := rfl

section Rates
variable [Lib.Rounding]

/-- `net_compute_stats`; `none` is its -1. -/
def netComputeStats (intervalSec : Int32) (prev curr : NetSnapshot) : Option NetStats :=
  if intervalSec ≤ 0 then none
  else some {
    items := netKind.computeLoop prev.items intervalSec.toInt MAX_INTERFACES curr.items []
    bound := netKind.computeLoop_length_le _ _ _ _ _ (Nat.zero_le _) }

/-- The output array is as long as the snapshot's, so every match fits. -/
theorem netComputeStats_eq {intervalSec : Int32} (h : 0 < intervalSec) (prev curr : NetSnapshot) :
    ∃ stats, netComputeStats intervalSec prev curr = some stats ∧
      stats.items = netKind.averaged intervalSec.toInt prev.items curr.items := by
  have hpos : ¬ intervalSec ≤ 0 := by simpa using h
  refine ⟨_, if_neg hpos, ?_⟩
  exact netKind.computeLoop_eq prev.items intervalSec.toInt MAX_INTERFACES curr.items []
    (by simpa using curr.bound)

theorem netComputeStats_averaged {intervalSec : Int32} (hi : 0 < intervalSec)
    {prev curr : NetSnapshot} {stats : NetStats}
    (h : netComputeStats intervalSec prev curr = some stats) :
    stats.items = netKind.averaged intervalSec.toInt prev.items curr.items := by
  obtain ⟨s, hs, hitems⟩ := netComputeStats_eq hi prev curr
  rw [hs, Option.some.injEq] at h
  exact h ▸ hitems

/-- There are statistics only for a positive interval. -/
theorem netComputeStats_pos {intervalSec : Int32} {prev curr : NetSnapshot} {stats : NetStats}
    (h : netComputeStats intervalSec prev curr = some stats) : 0 < intervalSec := by
  by_contra hneg
  rw [netComputeStats, if_pos (by simpa using hneg)] at h
  cases h

end Rates

/-! ## Reading `/proc/net/dev` -/

/-- The local variables of one line. -/
structure NetLine where
  field : Nat
  name : Option Bytes
  rxBytes : UInt64
  txBytes : UInt64

/-- The loop over the tokens of a line. It breaks at a first token without a
colon, at a counter `parse_ull` refuses and after the tenth token; a refused
tenth token still counts as a field. -/
def netTokens (l : NetLine) : List Bytes → NetLine
  | [] => l
  | token :: rest =>
    let l := { l with field := l.field + 1 }
    if l.field = 1 then
      match cutAt 58 token with
      | none => l
      | some name => netTokens { l with name := some name } rest
    else if l.field = 2 then
      match parseUll token with
      | none => l
      | some v => netTokens { l with rxBytes := v } rest
    else if l.field = 10 then
      match parseUll token with
      | none => l
      | some v => { l with txBytes := v }
    else netTokens l rest

/-- The counter of one line, if the line gives one. -/
def netCounter (includeLoopback : Bool) (line : Bytes) : Option NetCounter :=
  let cursor := trimWhitespace (cstr line)
  if cursor = [] then none
  else
    let l := netTokens ⟨0, none, 0, 0⟩ (strtokAll (fun b => b == 32 || b == 9) [] cursor)
    match l.name with
    | none => none
    | some name =>
      if l.field < 10 then none
      else if !includeLoopback ∧ name = ascii "lo" then none
      else some ⟨CString.ofBytes 32 name, l.rxBytes, l.txBytes⟩

/-- The loop over the lines; the first two are the header. -/
def netLines (includeLoopback : Bool) : Nat → List Bytes → List NetCounter → List NetCounter
  | _, [], out => out
  | lineNo, line :: rest, out =>
    if out.length < MAX_INTERFACES then
      if lineNo + 1 ≤ 2 then netLines includeLoopback (lineNo + 1) rest out
      else match netCounter includeLoopback line with
        | none => netLines includeLoopback (lineNo + 1) rest out
        | some c => netLines includeLoopback (lineNo + 1) rest (out ++ [c])
    else out

theorem netLines_length_le (includeLoopback : Bool) (lines : List Bytes) (lineNo : Nat)
    (out : List NetCounter) (h : out.length ≤ MAX_INTERFACES) :
    (netLines includeLoopback lineNo lines out).length ≤ MAX_INTERFACES := by
  induction lines generalizing lineNo out with
  | nil => exact h
  | cons line rest ih =>
    rw [netLines]
    split
    · split
      · exact ih _ out h
      · split
        · exact ih _ out h
        · exact ih _ _ (by rw [List.length_append, List.length_singleton]; omega)
    · exact h

/-- `net_read_snapshot` on the contents of `/proc/net/dev`, `none` when it
cannot be opened. -/
def netReadSnapshot (contents : Option Bytes) (includeLoopback : Bool) : Option NetSnapshot :=
  match contents with
  | none => none
  | some text => some {
      items := netLines includeLoopback 0 (fgetsAll 512 [] text) []
      bound := netLines_length_le _ _ _ _ (Nat.zero_le _) }

end Syswatch
