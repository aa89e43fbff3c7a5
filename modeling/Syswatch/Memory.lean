import Syswatch.Cpu
import Syswatch.Lib.Scanf

/-! # Memory statistics (`memory.c`) -/

namespace Syswatch.Memory
open Lib.CText Lib.Scanf

/-- `"%63[^:]: %llu kB"`. -/
def meminfoFormat : List Part :=
  [.upTo 63 58, .char 58, .blanks, .ull, .blanks, .char 107, .char 66]

/-- The statistics after `memset`. -/
def noStats : MemoryStats := ⟨0, 0, 0, 0, 0, 0, 0, 0, 0⟩

/-- The chain of comparisons with the keys. -/
def storeKey (out : MemoryStats) (key : Bytes) (bytes : UInt64) : MemoryStats :=
  if key = ascii "MemTotal" then { out with memTotal := bytes }
  else if key = ascii "MemAvailable" then { out with memAvailable := bytes }
  else if key = ascii "MemFree" then { out with memFree := bytes }
  else if key = ascii "Buffers" then { out with buffers := bytes }
  else if key = ascii "Cached" then { out with cached := bytes }
  else if key = ascii "SwapTotal" then { out with swapTotal := bytes }
  else if key = ascii "SwapFree" then { out with swapFree := bytes }
  else out

/-- One turn of the loop; a line without both conversions is skipped. -/
def readLine (out : MemoryStats) (line : Bytes) : MemoryStats :=
  match items meminfoFormat (cstr line) with
  | [.text key, .num valueKb] => storeKey out key (valueKb * 1024)
  | _ => out

/-- What is in use, where that is not negative. -/
def storeUsed (out : MemoryStats) : MemoryStats :=
  let out :=
    if out.memTotal ≥ out.memAvailable then
      { out with memUsed := out.memTotal - out.memAvailable }
    else out
  if out.swapTotal ≥ out.swapFree then { out with swapUsed := out.swapTotal - out.swapFree } else out

/-- `memory_read_stats` on the contents of `/proc/meminfo`, `none` when it
cannot be opened. -/
def memoryReadStats (contents : Option Bytes) : Option MemoryStats :=
  contents.map fun text => storeUsed ((fgetsAll 256 [] text).foldl readLine noStats)

/-! ## The fields with a key -/

structure Field where
  key : Bytes
  get : MemoryStats → UInt64
  set : MemoryStats → UInt64 → MemoryStats

def fields : List Field :=
  [⟨ascii "MemTotal", MemoryStats.memTotal, fun s v => { s with memTotal := v }⟩,
    ⟨ascii "MemAvailable", MemoryStats.memAvailable, fun s v => { s with memAvailable := v }⟩,
    ⟨ascii "MemFree", MemoryStats.memFree, fun s v => { s with memFree := v }⟩,
    ⟨ascii "Buffers", MemoryStats.buffers, fun s v => { s with buffers := v }⟩,
    ⟨ascii "Cached", MemoryStats.cached, fun s v => { s with cached := v }⟩,
    ⟨ascii "SwapTotal", MemoryStats.swapTotal, fun s v => { s with swapTotal := v }⟩,
    ⟨ascii "SwapFree", MemoryStats.swapFree, fun s v => { s with swapFree := v }⟩]

/-- The keys that are looked for. -/
def keys : List Bytes := fields.map Field.key

theorem forall_fields {P : Field → Prop} (h : ∀ i : Fin 7, P (fields.get i)) : ∀ f ∈ fields, P f := by
  intro f hf
  obtain ⟨i, rfl⟩ := List.mem_iff_get.mp hf
  exact h i

theorem storeKey_field : ∀ f ∈ fields, ∀ s v, storeKey s f.key v = f.set s v := by
  apply forall_fields
  intro i s v
  fin_cases i <;> rfl

theorem get_set : ∀ f ∈ fields, ∀ s v, f.get (f.set s v) = v := by
  apply forall_fields
  intro i s v
  fin_cases i <;> rfl

theorem noStats_get : ∀ f ∈ fields, f.get noStats = 0 := by
  apply forall_fields
  intro i
  fin_cases i <;> rfl

/-- Two keys are two fields. -/
theorem get_set_ne : ∀ f ∈ fields, ∀ g ∈ fields, f.key ≠ g.key → ∀ s v, f.get (g.set s v) = f.get s := by
  apply forall_fields
  intro i
  apply forall_fields
  intro j hne s v
  fin_cases i <;> fin_cases j <;> first | rfl | exact absurd rfl hne

theorem set_comm : ∀ f ∈ fields, ∀ g ∈ fields, f.key ≠ g.key →
    ∀ s v w, f.set (g.set s w) v = g.set (f.set s v) w := by
  apply forall_fields
  intro i
  apply forall_fields
  intro j hne s v w
  fin_cases i <;> fin_cases j <;> first | rfl | exact absurd rfl hne

theorem storeKey_other {key : Bytes} (h : key ∉ keys) (s : MemoryStats) (v : UInt64) :
    storeKey s key v = s := by
  simp only [keys, fields, List.map_cons, List.map_nil, List.mem_cons, List.not_mem_nil, or_false,
    not_or] at h
  obtain ⟨h₁, h₂, h₃, h₄, h₅, h₆, h₇⟩ := h
  rw [storeKey, if_neg h₁, if_neg h₂, if_neg h₃, if_neg h₄, if_neg h₅, if_neg h₆, if_neg h₇]

/-! ## What is in use -/

theorem storeUsed_get (s : MemoryStats) : ∀ f ∈ fields, f.get (storeUsed s) = f.get s := by
  unfold storeUsed
  apply forall_fields
  intro i
  dsimp only
  split_ifs <;> fin_cases i <;> rfl

/-- The lines leave what is in use at 0. -/
theorem readLine_used (out : MemoryStats) (line : Bytes) :
    (readLine out line).memUsed = out.memUsed ∧ (readLine out line).swapUsed = out.swapUsed := by
  rw [readLine]
  split
  · unfold storeKey
    split_ifs <;> exact ⟨rfl, rfl⟩
  · exact ⟨rfl, rfl⟩

theorem foldl_used (lines : List Bytes) (out : MemoryStats) :
    (lines.foldl readLine out).memUsed = out.memUsed ∧
      (lines.foldl readLine out).swapUsed = out.swapUsed := by
  induction lines generalizing out with
  | nil => exact ⟨rfl, rfl⟩
  | cons l rest ih =>
    rw [List.foldl_cons, (ih _).1, (ih _).2]
    exact readLine_used out l

/-- What is in use is the difference, or 0. -/
theorem storeUsed_used {s : MemoryStats} (hmem : s.memUsed = 0) (hswap : s.swapUsed = 0) :
    (storeUsed s).memUsed = counterDelta s.memAvailable s.memTotal ∧
      (storeUsed s).swapUsed = counterDelta s.swapFree s.swapTotal := by
  unfold storeUsed counterDelta
  dsimp only
  split_ifs
  · exact ⟨rfl, rfl⟩
  · exact ⟨rfl, hswap⟩
  · exact ⟨hmem, rfl⟩
  · exact ⟨hmem, hswap⟩

theorem memoryReadStats_used (text : Bytes) : ∃ stats, memoryReadStats (some text) = some stats ∧
    stats.memUsed.toNat = stats.memTotal.toNat - stats.memAvailable.toNat ∧
    stats.swapUsed.toNat = stats.swapTotal.toNat - stats.swapFree.toNat := by
  set read := (fgetsAll 256 [] text).foldl readLine noStats with hread
  obtain ⟨hmem, hswap⟩ := foldl_used (fgetsAll 256 [] text) noStats
  obtain ⟨hm, hs⟩ := storeUsed_used hmem hswap
  have hget := storeUsed_get read
  simp only [fields, List.forall_mem_cons] at hget
  obtain ⟨htotal, havailable, -, -, -, hswapTotal, hswapFree, -⟩ := hget
  refine ⟨storeUsed read, rfl, ?_, ?_⟩
  · rw [htotal, havailable, hread, hm, counterDelta_toNat]
  · rw [hswapTotal, hswapFree, hread, hs, counterDelta_toNat]

end Syswatch.Memory
