import Syswatch.Disk
import Syswatch.Network
import Syswatch.Escape

/-! # The texts of the events (`main.c`)

`collector_thread` formats every event by hand into an array of 512, 1024 or
2048 bytes. The events with one entry for each device are built piece by piece
and stop listing devices when the array is nearly full. -/

namespace Syswatch
open Lib.CText

/-! ## Printing a `double` -/

/-- Rounding to the nearest whole number, ties to even. -/
def roundHalfEven (q : ℚ) : Nat :=
  let down := ⌊q⌋₊
  if q - down < 1 / 2 then down
  else if 1 / 2 < q - down then down + 1
  else down + down % 2

/-- `%.0f`. -/
def fmtFixed0 (q : ℚ) : Bytes :=
  if q < 0 then 45 :: decimal (roundHalfEven (-q)) else decimal (roundHalfEven q)

def tenths (q : ℚ) : Bytes :=
  let n := roundHalfEven (10 * q)
  decimal (n / 10) ++ 46 :: decimal (n % 10)

/-- `%.1f`. -/
def fmtFixed1 (q : ℚ) : Bytes := if q < 0 then 45 :: tenths (-q) else tenths q

theorem roundHalfEven_le {q : ℚ} (h0 : 0 ≤ q) {n : Nat} (h : q ≤ n) : roundHalfEven q ≤ n := by
  have hfloor : ⌊q⌋₊ ≤ n := Nat.floor_le_of_le h
  have hdown : (⌊q⌋₊ : ℚ) ≤ q := Nat.floor_le h0
  rcases Nat.lt_or_eq_of_le hfloor with hlt | heq
  · unfold roundHalfEven
    simp only
    split
    · exact hfloor
    · split <;> omega
  · have hq : q = n := le_antisymm h (heq ▸ hdown)
    subst hq
    simp [roundHalfEven]

theorem fmtFixed0_of_nonneg {q : ℚ} (h : 0 ≤ q) : fmtFixed0 q = decimal (roundHalfEven q) :=
  if_neg (not_lt.mpr h)

theorem fmtFixed0_length {q : ℚ} (h0 : 0 ≤ q) {n k : Nat} (h : q ≤ n) (hk : 0 < k)
    (hn : n < 10 ^ k) : (fmtFixed0 q).length ≤ k := by
  rw [fmtFixed0_of_nonneg h0, decimal_length_le_iff hk]
  exact lt_of_le_of_lt (roundHalfEven_le h0 h) hn

/-! ## The events -/

/-- The local variables `rfc_ts` and `host_json`. -/
structure Stamp where
  timestamp : CString 64
  host : CString 256
  deriving DecidableEq

inductive Event where
  | warmingUp
  | ready
  | cpu (stats : CpuStats)
  | memory (stats : MemoryStats)
  | disk (stats : DiskStats)
  | network (stats : NetStats)
  | internal (metrics : InternalMetrics)
  deriving DecidableEq

inductive EventType where
  | warmingUp
  | ready
  | cpu
  | memory
  | disk
  | network
  | internal
  deriving DecidableEq

def EventType.name : EventType → Bytes
  | .warmingUp => ascii "syswatch.lifecycle.warming_up"
  | .ready => ascii "syswatch.lifecycle.ready"
  | .cpu => ascii "system.metrics.cpu"
  | .memory => ascii "system.metrics.memory"
  | .disk => ascii "system.metrics.disk"
  | .network => ascii "system.metrics.network"
  | .internal => ascii "syswatch.internal"

def Event.eventType : Event → EventType
  | .warmingUp => .warmingUp
  | .ready => .ready
  | .cpu _ => .cpu
  | .memory _ => .memory
  | .disk _ => .disk
  | .network _ => .network
  | .internal _ => .internal

/-- The part that every event starts with, up to the brace of the payload. -/
def header (st : Stamp) (eventType : EventType) : Bytes :=
  ascii "\x7b\"schema_version\":\"1.0\",\"timestamp\":\"" ++ st.timestamp.bytes ++
    ascii "\",\"host\":\"" ++ st.host.bytes ++
    ascii "\",\"source\":\"syswatch\",\"source_version\":\"" ++ SYSWATCH_VERSION ++
    ascii "\",\"event_type\":\"" ++ eventType.name ++
    ascii "\",\"severity\":\"info\",\"payload\":\x7b"

/-- One entry of the disk or network event, with the labels of its two rates. -/
def rateEntryText (firstLabel secondLabel : Bytes) (e : CString 32 × ℚ × ℚ) : Bytes :=
  ascii "\x7b\"name\":\"" ++ e.1.bytes ++ ascii "\",\"" ++ firstLabel ++ ascii "\":" ++
    fmtFixed0 e.2.1 ++ ascii ",\"" ++ secondLabel ++ ascii "\":" ++ fmtFixed0 e.2.2 ++ ascii "\x7d"

def diskEntryText (e : DiskRateEntry) : Bytes :=
  rateEntryText (ascii "read_bps") (ascii "write_bps") (diskKind.rates e)

def netEntryText (e : NetRateEntry) : Bytes :=
  rateEntryText (ascii "rx_bps") (ascii "tx_bps") (netKind.rates e)

/-- The loop over the entries, with `i` of them written. -/
def rateLoop {ρ : Type} (entryText : ρ → Bytes) : Nat → List ρ → Fill 2048 → Option (Fill 2048)
  | _, [], w => some w
  | i, e :: rest, w =>
    if w.pos < 2048 - 512 then
      (if i > 0 then w.printf (ascii ",") else some w).bind fun w =>
        (w.printf (entryText e)).bind fun w => rateLoop entryText (i + 1) rest w
    else some w

/-- The text of the disk or network event. -/
def rateEventText {ρ : Type} (start : Bytes) (entryText : ρ → Bytes) (entries : List ρ) :
    Option Bytes := do
  let w ← (Fill.start 2048).printf start
  let w ← rateLoop entryText 0 entries w
  let w ← w.printf (ascii "]\x7d\x7d")
  some w.text

def cpuPayload (s : CpuStats) : Bytes :=
  ascii "\"usage_pct\":" ++ fmtFixed1 s.usagePct ++ ascii ",\"user_pct\":" ++ fmtFixed1 s.userPct ++
    ascii ",\"system_pct\":" ++ fmtFixed1 s.systemPct ++
    ascii ",\"idle_pct\":" ++ fmtFixed1 s.idlePct ++
    ascii ",\"core_count\":" ++ decimal s.coreCount

def memoryPayload (s : MemoryStats) : Bytes :=
  ascii "\"mem_total\":" ++ decimal s.memTotal.toNat ++
    ascii ",\"mem_available\":" ++ decimal s.memAvailable.toNat ++
    ascii ",\"mem_free\":" ++ decimal s.memFree.toNat ++
    ascii ",\"mem_used\":" ++ decimal s.memUsed.toNat ++
    ascii ",\"swap_total\":" ++ decimal s.swapTotal.toNat ++
    ascii ",\"swap_free\":" ++ decimal s.swapFree.toNat ++
    ascii ",\"swap_used\":" ++ decimal s.swapUsed.toNat

def internalPayload (m : InternalMetrics) : Bytes :=
  ascii "\"buffer_depth\":" ++ decimal m.bufferDepth.toNat ++
    ascii ",\"events_dropped_total\":" ++ decimal m.eventsDroppedTotal.toNat ++
    ascii ",\"events_emitted_total\":" ++ decimal m.eventsEmittedTotal.toNat

/-- The string that is handed to `queue_enqueue`; `none` where `pos` has run
past the array. -/
def Event.json (st : Stamp) (e : Event) : Option Bytes :=
  let start := header st e.eventType
  match e with
  | .warmingUp => some (snprintf 512 (start ++ ascii "\x7d\x7d"))
  | .ready => some (snprintf 512 (start ++ ascii "\x7d\x7d"))
  | .cpu s => some (snprintf 1024 (start ++ cpuPayload s ++ ascii "\x7d\x7d"))
  | .memory s => some (snprintf 1024 (start ++ memoryPayload s ++ ascii "\x7d\x7d"))
  | .disk s => rateEventText (start ++ ascii "\"disks\":[") diskEntryText s.items
  | .network s => rateEventText (start ++ ascii "\"interfaces\":[") netEntryText s.items
  | .internal m => some (snprintf 1024 (start ++ internalPayload m ++ ascii "\x7d\x7d"))

/-! ## Sizes -/

theorem EventType.name_length (t : EventType) : t.name.length ≤ 29 := by cases t <;> decide

/-- The start of every event fits into the smallest array with room to spare. -/
theorem header_length (st : Stamp) (t : EventType) : (header st t).length ≤ 488 := by
  have ht := st.timestamp.fits
  have hh := st.host.fits
  have hname := t.name_length
  have hlit : ∀ s : String, (ascii s).length = s.toList.length := fun s => by simp [ascii]
  simp only [header, List.length_append, hlit, SYSWATCH_VERSION]
  simp
  omega

theorem rateLoop_bounded {ρ : Type} (entryText : ρ → Bytes) (entries : List ρ) {i : Nat}
    {w w' : Fill 2048} (hw : w.Bounded) (h : rateLoop entryText i entries w = some w') :
    w'.Bounded ∧ w.text <+: w'.text := by
  induction entries generalizing i w with
  | nil =>
    cases h
    exact ⟨hw, List.prefix_rfl⟩
  | cons e rest ih =>
    rw [rateLoop] at h
    split at h
    · simp only [Option.bind_eq_some_iff] at h
      obtain ⟨w₁, h₁, w₂, h₂, h₃⟩ := h
      have hcomma : w₁.Bounded ∧ w.text <+: w₁.text := by
        split at h₁
        · exact hw.printf h₁
        · cases h₁
          exact ⟨hw, List.prefix_rfl⟩
      obtain ⟨hw₂, hpre⟩ := hcomma.1.printf h₂
      obtain ⟨hlast, hpre'⟩ := ih hw₂ h₃
      exact ⟨hlast, hcomma.2.trans (hpre.trans hpre')⟩
    · cases h
      exact ⟨hw, List.prefix_rfl⟩

theorem rateEventText_length {ρ : Type} {start : Bytes} {entryText : ρ → Bytes} {entries : List ρ}
    {text : Bytes} (hs : start ≠ []) (h : rateEventText start entryText entries = some text) :
    0 < text.length ∧ text.length < 2048 := by
  simp only [rateEventText, Option.bind_eq_bind, Option.bind_eq_some_iff] at h
  obtain ⟨w₁, h₁, w₂, h₂, w₃, h₃, heq⟩ := h
  cases heq
  have h0 : (Fill.start 2048).Bounded := ⟨by decide, by decide⟩
  have hpos : 0 < w₁.text.length := by
    obtain ⟨b, rest, rfl⟩ := List.exists_cons_of_ne_nil hs
    cases h₁
    simp [Fill.start]
  obtain ⟨hw₂, hpre₂⟩ := rateLoop_bounded entryText entries (h0.printf h₁).1 h₂
  obtain ⟨hw₃, hpre₃⟩ := hw₂.printf h₃
  exact ⟨lt_of_lt_of_le hpos (hpre₂.trans hpre₃).length_le, hw₃.1⟩

theorem snprintf_length {n : Nat} {s : Bytes} (hn : 1 < n) (hs : s ≠ []) :
    0 < (snprintf n s).length ∧ (snprintf n s).length < n := by
  have := List.length_pos_iff.mpr hs
  rw [snprintf, List.length_take]
  omega

/-- **Every event fits into a queue entry.** -/
theorem Event.json_length {st : Stamp} {e : Event} {text : Bytes} (h : e.json st = some text) :
    0 < text.length ∧ text.length < MAX_EVENT_SIZE := by
  have hne : ∀ rest, header st e.eventType ++ rest ≠ [] := by
    intro rest
    simp [header, ascii]
  have hsmall : ∀ {n : Nat}, 0 < text.length ∧ text.length < n → n ≤ 2048 →
      0 < text.length ∧ text.length < MAX_EVENT_SIZE := by
    rintro n ⟨hpos, hlt⟩ hn
    exact ⟨hpos, by simp only [MAX_EVENT_SIZE]; omega⟩
  cases e <;> simp only [Event.json, Option.some.injEq, List.append_assoc] at h hne
  case disk s => exact hsmall (rateEventText_length (hne _) h) le_rfl
  case network s => exact hsmall (rateEventText_length (hne _) h) le_rfl
  all_goals
    subst h
    exact hsmall (snprintf_length (by decide) (hne _)) (by decide)

/-! ## What an event with device entries says -/

/-- The devices the loop writes, with `i` of them and `pos` bytes written. -/
def listed {ρ : Type} (entryText : ρ → Bytes) : Nat → Nat → List ρ → List ρ
  | _, _, [] => []
  | i, pos, e :: rest =>
    if pos < 2048 - 512 then
      e :: listed entryText (i + 1) (pos + (if i > 0 then 1 else 0) + (entryText e).length) rest
    else []

/-- Their entries, with a comma in front of all but the first. -/
def joined {ρ : Type} (entryText : ρ → Bytes) : Nat → List ρ → Bytes
  | _, [] => []
  | i, e :: rest => (if i > 0 then [44] else []) ++ entryText e ++ joined entryText (i + 1) rest

theorem listed_sublist {ρ : Type} (entryText : ρ → Bytes) (entries : List ρ) (i pos : Nat) :
    (listed entryText i pos entries).Sublist entries := by
  induction entries generalizing i pos with
  | nil => exact .slnil
  | cons e rest ih =>
    rw [listed]
    split
    · exact (ih _ _).cons_cons e
    · exact List.nil_sublist _

/-- Entries of fewer than 500 bytes are never cut. -/
theorem rateLoop_spec {ρ : Type} (entryText : ρ → Bytes) (entries : List ρ) {i : Nat}
    {w : Fill 2048} (hw : w.Whole) (hroom : w.text.length < 2040)
    (hsize : ∀ e ∈ entries, (entryText e).length < 500) :
    ∃ w', rateLoop entryText i entries w = some w' ∧ w'.Whole ∧ w'.text.length < 2040 ∧
      w'.text = w.text ++ joined entryText i (listed entryText i w.pos entries) := by
  induction entries generalizing i w with
  | nil => exact ⟨w, rfl, hw, hroom, by simp [listed, joined]⟩
  | cons e rest ih =>
    rw [rateLoop, listed]
    by_cases hpos : w.pos < 2048 - 512
    · have he := hsize e (by simp)
      have hp := hw.1
      obtain ⟨w₁, h₁, hw₁, ht₁⟩ := hw.printf_next (s := if i > 0 then [44] else [])
        (by split <;> simp <;> omega)
      have hcomma : (if i > 0 then w.printf (ascii ",") else some w) = some w₁ := by
        split
        · rename_i hi
          rwa [if_pos hi] at h₁
        · rename_i hi
          rw [if_neg hi, hw.printf_nil] at h₁
          exact h₁
      have hlen₁ : w₁.text.length ≤ w.text.length + 1 := by
        rw [ht₁, List.length_append]
        split <;> simp
      obtain ⟨w₂, h₂, hw₂, ht₂⟩ := hw₁.printf_next (s := entryText e) (by omega)
      have hlen₂ : w₂.text.length < 2040 := by rw [ht₂, List.length_append]; omega
      obtain ⟨w₃, h₃, hw₃, hlen₃, ht₃⟩ := ih hw₂ hlen₂ fun e' h' => hsize e' (by simp [h'])
      have hnext : w₂.pos = w.pos + (if i > 0 then 1 else 0) + (entryText e).length := by
        rw [hw₂.1, ht₂, ht₁, hp, List.length_append, List.length_append]
        split <;> rfl
      refine ⟨w₃, ?_, hw₃, hlen₃, ?_⟩
      · rw [if_pos hpos, hcomma, Option.bind_some, h₂, Option.bind_some]
        exact h₃
      · rw [if_pos hpos, ht₃, ht₂, ht₁, hnext, joined]
        simp only [List.append_assoc]
    · simp only [if_neg hpos]
      exact ⟨w, rfl, hw, hroom, by simp [joined]⟩

/-- The text of an event whose entries are short. -/
theorem rateEventText_spec {ρ : Type} {start : Bytes} (entryText : ρ → Bytes) (entries : List ρ)
    (hstart : start.length < 2040) (hsize : ∀ e ∈ entries, (entryText e).length < 500) :
    rateEventText start entryText entries = some (start ++
      joined entryText 0 (listed entryText 0 start.length entries) ++ ascii "]\x7d\x7d") := by
  have h0 : (Fill.start 2048).Whole := ⟨rfl, by decide⟩
  obtain ⟨w₁, h₁, hw₁, ht₁⟩ := h0.printf_next (s := start) (by simp [Fill.start]; omega)
  rw [show (Fill.start 2048).text = [] from rfl, List.nil_append] at ht₁
  obtain ⟨w₂, h₂, hw₂, hlen₂, ht₂⟩ :=
    rateLoop_spec entryText entries (i := 0) hw₁ (by rw [ht₁]; exact hstart) hsize
  obtain ⟨w₃, h₃, _, ht₃⟩ := hw₂.printf_next (s := ascii "]\x7d\x7d")
    (by rw [show (ascii "]\x7d\x7d").length = 3 from rfl]; omega)
  simp only [rateEventText, h₁, h₂, h₃, Option.bind_eq_bind, Option.bind_some]
  rw [ht₃, ht₂, hw₁.1, ht₁]

end Syswatch
