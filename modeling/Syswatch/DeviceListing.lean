import Syswatch.EventJson

/-! # Which devices an event lists

The disk event and the network event hold their entries in order from the
first. The loop looks at the bytes written before each entry: with 1536 of them
or more it stops, and the entries left over are nowhere. -/

namespace Syswatch.DeviceListing
open Lib.CText Lib.JsonText EventJson

section Listing
variable {ρ : Type} (entryText : ρ → Bytes)

/-- The event whose array of that key has these entries. -/
def eventText (st : Stamp) (t : EventType) (key : Bytes) (entries : List ρ) : Bytes :=
  header st t ++ arrayText key (joined entryText 0 entries)

/-- What the event starts with, up to the array. -/
def eventStart (st : Stamp) (t : EventType) (key : Bytes) : Bytes :=
  header st t ++ 34 :: (key ++ [34, 58, 91])

/-- The bytes in front of an entry, less the comma between it and the one before. -/
def bytesBefore (start : Bytes) (entries : List ρ) (i : Nat) : Nat :=
  start.length + (joined entryText 0 (entries.take i)).length

/-- The event lists the first entries, each once and in order: those in front
of which the array has room for 512 bytes. -/
def ListsFirst (st : Stamp) (t : EventType) (key : Bytes) (entries : List ρ)
    (json : Option Bytes) : Prop :=
  ∃ n ≤ entries.length, json = some (eventText entryText st t key (entries.take n)) ∧
    ∀ i < entries.length,
      (i < n ↔ bytesBefore entryText (eventStart st t key) entries i < 2048 - 512)

theorem listed_take (entries : List ρ) (i pos : Nat) :
    ∃ n ≤ entries.length, listed entryText i pos entries = entries.take n ∧
      ∀ k < entries.length,
        (k < n ↔ pos + (joined entryText i (entries.take k)).length < 2048 - 512) := by
  induction entries generalizing i pos with
  | nil => exact ⟨0, le_rfl, rfl, by simp⟩
  | cons e rest ih =>
    by_cases hpos : pos < 2048 - 512
    · obtain ⟨n, hn, hl, hk⟩ :=
        ih (i + 1) (pos + (if i > 0 then 1 else 0) + (entryText e).length)
      refine ⟨n + 1, Nat.succ_le_succ hn, by rw [listed, if_pos hpos, hl, List.take_succ_cons], ?_⟩
      intro k hlt
      cases k with
      | zero => simpa [joined] using hpos
      | succ k =>
        have hcomma : ((if i > 0 then [44] else [] : Bytes)).length = if i > 0 then 1 else 0 := by
          split <;> rfl
        rw [Nat.succ_lt_succ_iff, hk k (Nat.lt_of_succ_lt_succ hlt), List.take_succ_cons, joined,
          List.length_append, List.length_append, hcomma, ← Nat.add_assoc, ← Nat.add_assoc]
    · refine ⟨0, Nat.zero_le _, by rw [listed, if_neg hpos, List.take_zero], ?_⟩
      intro k _
      omega

/-- The text of an event with short entries: nothing in it has been cut. -/
theorem rateEvent_text (st : Stamp) (t : EventType) {key : Bytes} (hkey : key.length ≤ 10)
    {entries : List ρ} (hsize : ∀ e ∈ entries, (entryText e).length < 500) :
    rateEventText (eventStart st t key) entryText entries = some (eventText entryText st t key
      (listed entryText 0 (eventStart st t key).length entries)) := by
  have hstart : (eventStart st t key).length < 2040 := by
    have := header_length st t
    simp only [eventStart, List.length_append, List.length_cons, List.length_nil]
    omega
  have hend : ascii "]\x7d\x7d" = [93, 125, 125] := rfl
  rw [rateEventText_spec entryText entries hstart hsize, hend, eventText, arrayText]
  simp only [eventStart, List.append_assoc, List.cons_append, List.nil_append]

theorem rateEvent_lists (st : Stamp) (t : EventType) {key : Bytes} (hkey : key.length ≤ 10)
    {entries : List ρ} (hsize : ∀ e ∈ entries, (entryText e).length < 500) :
    ListsFirst entryText st t key entries
      (rateEventText (eventStart st t key) entryText entries) := by
  obtain ⟨n, hn, hl, hk⟩ := listed_take entryText entries 0 (eventStart st t key).length
  exact ⟨n, hn, by rw [rateEvent_text entryText st t hkey hsize, hl], hk⟩

/-! ## No control characters -/

theorem joined_printable {es : List ρ} (h : ∀ e ∈ es, ∀ b ∈ entryText e, 32 ≤ b) (i : Nat) :
    ∀ b ∈ joined entryText i es, 32 ≤ b := by
  induction es generalizing i with
  | nil => simp [joined]
  | cons e es ih =>
    have hcomma : ∀ b ∈ (if i > 0 then [44] else [] : Bytes), 32 ≤ b := by split <;> decide
    simp only [joined, List.forall_mem_append]
    exact ⟨⟨hcomma, h e (by simp)⟩, ih (fun x hx => h x (by simp [hx])) (i + 1)⟩

theorem eventText_printable {st : Stamp} (hts : ∀ b ∈ st.timestamp.bytes, 32 ≤ b)
    (hhost : ∀ b ∈ st.host.bytes, 32 ≤ b) (t : EventType) {key : Bytes} (hkey : ∀ b ∈ key, 32 ≤ b)
    {es : List ρ} (hes : ∀ e ∈ es, ∀ b ∈ entryText e, 32 ≤ b) :
    ∀ b ∈ eventText entryText st t key es, 32 ≤ b := by
  rw [eventText, List.forall_mem_append]
  refine ⟨header_printable hts hhost t, ?_⟩
  simp only [arrayText, List.forall_mem_cons, List.forall_mem_append]
  exact ⟨by decide, hkey, by decide, by decide, by decide, joined_printable entryText hes 0,
    by decide, by decide, by decide, by simp⟩

end Listing

theorem fmtFixed0_printable {q : ℚ} (h : 0 ≤ q) : ∀ b ∈ fmtFixed0 q, 32 ≤ b := by
  rw [fmtFixed0_of_nonneg h]
  exact decimal_printable _

theorem rateEntryText_printable {l₁ l₂ : Bytes} (hl₁ : ∀ b ∈ l₁, 32 ≤ b) (hl₂ : ∀ b ∈ l₂, 32 ≤ b)
    {e : CString 32 × ℚ × ℚ} (hname : ∀ b ∈ e.1.bytes, 32 ≤ b) (h₁ : 0 ≤ e.2.1) (h₂ : 0 ≤ e.2.2) :
    ∀ b ∈ rateEntryText l₁ l₂ e, 32 ≤ b := by
  simp only [rateEntryText, List.forall_mem_append]
  exact ⟨⟨⟨⟨⟨⟨⟨⟨⟨⟨by decide, hname⟩, by decide⟩, hl₁⟩, by decide⟩, fmtFixed0_printable h₁⟩, by decide⟩,
    hl₂⟩, by decide⟩, fmtFixed0_printable h₂⟩, by decide⟩

/-- **Plain entries** with unsigned rates make the event one object on one line. -/
theorem validEvent_of_plain {ρ : Type} {view : ρ → CString 32 × ℚ × ℚ} {c : UInt8}
    {l₁ l₂ key : Bytes} {st : Stamp} {host : Bytes} (hst : Readable st host)
    (hprint : ∀ b ∈ st.host.bytes, 32 ≤ b) (t : EventType) {es : List ρ}
    (hkey : ∀ b ∈ key, Plain b) (hl₁ : ∀ b ∈ c :: l₁, Plain b) (hl₂ : ∀ b ∈ l₂, Plain b)
    (hplain : ∀ e ∈ es, PlainName view e) (hrates : ∀ e ∈ es, Unsigned view e) :
    ValidEvent key (eventText (entryOf view c l₁ l₂) st t key es)
      (es.map fun e => (view e).1.bytes) := by
  obtain ⟨v, hv, hobj, hnames⟩ := parse_event hst t hkey hl₁ hl₂ hplain hrates
  have hentry : ∀ e ∈ es, ∀ b ∈ entryOf view c l₁ l₂ e, 32 ≤ b := fun e he =>
    rateEntryText_printable (fun b hb => (hl₁ b hb).1) (fun b hb => (hl₂ b hb).1)
      (fun b hb => (hplain e he b hb).1) (hrates e he).1 (hrates e he).2
  have htext := eventText_printable _ (fun b hb => (hst.timestamp b hb).1) hprint t
    (fun b hb => (hkey b hb).1) hentry
  refine ⟨⟨v, hv, hobj, ?_⟩, fun h10 => absurd (htext 10 h10) (by decide)⟩
  rw [hnames, List.map_map]
  rfl

/-! ## The two events -/

theorem disk_json (st : Stamp) (stats : DiskStats) : (Event.disk stats).json st =
    rateEventText (eventStart st .disk (ascii "disks")) diskEntryText stats.items := rfl

theorem network_json (st : Stamp) (stats : NetStats) : (Event.network stats).json st =
    rateEventText (eventStart st .network (ascii "interfaces")) netEntryText stats.items := rfl

/-- A rate of fewer than `2^64 * 512` bytes a second has at most 22 digits. -/
theorem rateEntryText_length {l₁ l₂ : Bytes} (h₁ : l₁.length ≤ 9) (h₂ : l₂.length ≤ 9)
    {e : CString 32 × ℚ × ℚ} (hfirst : 0 ≤ e.2.1 ∧ e.2.1 ≤ (2 ^ 73 : Nat))
    (hsecond : 0 ≤ e.2.2 ∧ e.2.2 ≤ (2 ^ 73 : Nat)) : (rateEntryText l₁ l₂ e).length < 500 := by
  have hname := e.1.fits
  have hd₁ := fmtFixed0_length hfirst.1 hfirst.2 (k := 22) (by decide) (by decide)
  have hd₂ := fmtFixed0_length hsecond.1 hsecond.2 (k := 22) (by decide) (by decide)
  have hlit : ∀ s : String, (ascii s).length = s.toList.length := fun s => by simp [ascii]
  simp only [rateEntryText, List.length_append, hlit]
  simp
  omega

/-- A rate that 64-bit counters can give. -/
def RateInRange (q : ℚ) : Prop := 0 ≤ q ∧ q < 2 ^ 64 * 512

instance (q : ℚ) : Decidable (RateInRange q) := inferInstanceAs (Decidable (_ ∧ _))

theorem RateInRange.le {q : ℚ} (h : RateInRange q) : 0 ≤ q ∧ q ≤ (2 ^ 73 : Nat) :=
  ⟨h.1, h.2.le.trans (by norm_num)⟩

/-- The rates computed from two snapshots are in that range, or the bound of it. -/
theorem rate_le {γ ρ : Type} {K : CounterKind γ ρ} (hu : K.unit ≤ 512) (prev curr : UInt64)
    {seconds : ℚ} (h : 1 ≤ seconds) :
    0 ≤ K.rate prev curr seconds ∧ K.rate prev curr seconds ≤ (2 ^ 73 : Nat) := by
  obtain ⟨h0, hle⟩ := K.rate_bounds prev curr h
  refine ⟨h0, hle.trans ?_⟩
  calc (2 : ℚ) ^ 64 * K.unit ≤ (2 : ℚ) ^ 64 * 512 := by gcongr
    _ = ((2 ^ 73 : Nat) : ℚ) := by norm_num

theorem averaged_rates_le {γ ρ : Type} {K : CounterKind γ ρ} (hu : K.unit ≤ 512) {seconds : ℚ}
    (h : 1 ≤ seconds) {prev curr : List γ} : ∀ e ∈ K.averaged seconds prev curr,
      (0 ≤ (K.rates e).2.1 ∧ (K.rates e).2.1 ≤ (2 ^ 73 : Nat)) ∧
        0 ≤ (K.rates e).2.2 ∧ (K.rates e).2.2 ≤ (2 ^ 73 : Nat) := by
  intro e he
  obtain ⟨p, _, c, _, _, rfl⟩ := K.mem_averaged he
  rw [CounterKind.rateEntry, K.rates_entry]
  exact ⟨rate_le hu _ _ h, rate_le hu _ _ h⟩

section Computed
variable {intervalSec : Int32} (hi : 0 < intervalSec)
include hi

theorem diskComputeStats_rates {prev curr : DiskSnapshot} {stats : DiskStats}
    (h : diskComputeStats intervalSec prev curr = some stats) : ∀ e ∈ stats.items,
      (0 ≤ e.readBps ∧ e.readBps ≤ (2 ^ 73 : Nat)) ∧
        0 ≤ e.writeBps ∧ e.writeBps ≤ (2 ^ 73 : Nat) := by
  rw [diskComputeStats_averaged hi h]
  exact averaged_rates_le (K := diskKind) (by norm_num [diskKind, DISK_SECTOR_SIZE])
    (interval_one_le hi)

theorem netComputeStats_rates {prev curr : NetSnapshot} {stats : NetStats}
    (h : netComputeStats intervalSec prev curr = some stats) : ∀ e ∈ stats.items,
      (0 ≤ e.rxBps ∧ e.rxBps ≤ (2 ^ 73 : Nat)) ∧ 0 ≤ e.txBps ∧ e.txBps ≤ (2 ^ 73 : Nat) := by
  rw [netComputeStats_averaged hi h]
  exact averaged_rates_le (K := netKind) (by norm_num [netKind]) (interval_one_le hi)

/-- Computed entries are short enough for every `snprintf` to have room. -/
theorem diskEntries_short {prev curr : DiskSnapshot} {stats : DiskStats}
    (h : diskComputeStats intervalSec prev curr = some stats) :
    ∀ e ∈ stats.items, (diskEntryText e).length < 500 := fun e he =>
  rateEntryText_length (by decide) (by decide) (diskComputeStats_rates hi h e he).1
    (diskComputeStats_rates hi h e he).2

theorem netEntries_short {prev curr : NetSnapshot} {stats : NetStats}
    (h : netComputeStats intervalSec prev curr = some stats) :
    ∀ e ∈ stats.items, (netEntryText e).length < 500 := fun e he =>
  rateEntryText_length (by decide) (by decide) (netComputeStats_rates hi h e he).1
    (netComputeStats_rates hi h e he).2

end Computed

/-- **The devices an event lists** are the first ones, up to the entry before
which 1536 bytes stand. -/
theorem devices_listed (st : Stamp) (disks : DiskStats) (nets : NetStats)
    (hdisks : ∀ e ∈ disks.items, RateInRange e.readBps ∧ RateInRange e.writeBps)
    (hnets : ∀ e ∈ nets.items, RateInRange e.rxBps ∧ RateInRange e.txBps) :
    ListsFirst diskEntryText st .disk (ascii "disks") disks.items ((Event.disk disks).json st) ∧
      ListsFirst netEntryText st .network (ascii "interfaces") nets.items
        ((Event.network nets).json st) := by
  rw [disk_json, network_json]
  constructor
  · refine rateEvent_lists diskEntryText st .disk (by decide) fun e he => ?_
    exact rateEntryText_length (by decide) (by decide) (hdisks e he).1.le (hdisks e he).2.le
  · refine rateEvent_lists netEntryText st .network (by decide) fun e he => ?_
    exact rateEntryText_length (by decide) (by decide) (hnets e he).1.le (hnets e he).2.le

def sampleStamp : Stamp :=
  ⟨CString.ofBytes 64 (ascii "2026-04-28T14:23:01.234+02:00"), CString.ofBytes 256 (ascii "myhost")⟩

/-- As many disks as the statistics hold, each at about 118 MiB a second. -/
def manyDisks : DiskStats where
  items := List.replicate MAX_DISKS ⟨CString.ofBytes 32 (ascii "nvme0n1"), 123456789, 123456789⟩
  bound := by simp

def oneInterface : NetStats where
  items := [⟨CString.ofBytes 32 (ascii "eth0"), 1000, 0⟩]
  bound := by decide

theorem devices_listed_example :
    ListsFirst diskEntryText sampleStamp .disk (ascii "disks") manyDisks.items
        ((Event.disk manyDisks).json sampleStamp) ∧
      ListsFirst netEntryText sampleStamp .network (ascii "interfaces") oneInterface.items
        ((Event.network oneInterface).json sampleStamp) :=
  devices_listed sampleStamp manyDisks oneInterface
    (by
      intro e he
      rw [List.eq_of_mem_replicate he]
      exact ⟨by decide +kernel, by decide +kernel⟩)
    (by
      intro e he
      rw [List.mem_singleton.mp he]
      exact ⟨by decide +kernel, by decide +kernel⟩)

/-- Thirty-two busy disks are more than the event has room for. -/
theorem devices_omitted :
    (∀ e ∈ manyDisks.items, (∀ b ∈ e.name.bytes, Plain b) ∧ RateInRange e.readBps ∧
      RateInRange e.writeBps) ∧
    (Event.disk manyDisks).json sampleStamp ≠
      some (eventText diskEntryText sampleStamp .disk (ascii "disks") manyDisks.items) := by
  constructor
  · intro e he
    rw [List.eq_of_mem_replicate he]
    exact ⟨by decide +kernel, by decide +kernel, by decide +kernel⟩
  · decide +kernel

end Syswatch.DeviceListing
