import Syswatch.Disk
import Syswatch.Network

/-! # The join of two snapshots

Disks and interfaces come and go between two readings and change places. Where
the names of a snapshot differ, the rates depend on the names alone. Here the
arithmetic is exact. -/

namespace Syswatch
open Lib.CText

local instance : Lib.Rounding := .exact

namespace CounterKind

variable {γ ρ : Type} (K : CounterKind γ ρ)

/-- The rate as arithmetic has it: no increase where the counter fell. -/
def exactRate (seconds : ℚ) (prev curr : UInt64) : ℚ :=
  max 0 ((curr.toNat : ℚ) - prev.toNat) * K.unit / seconds

/-- The entry `e` of the device `c`: its name, and the rates against the device
of that name in `prev`. -/
def Joined (prev : List γ) (seconds : ℚ) (c : γ) (e : ρ) : Prop :=
  ∃ p ∈ prev, K.name p = K.name c ∧ (K.rates e).1 = K.name c ∧
    (K.rates e).2.1 = K.exactRate seconds (K.first p) (K.first c) ∧
    (K.rates e).2.2 = K.exactRate seconds (K.second p) (K.second c)

/-- The devices that `prev` lists too. -/
def known (prev curr : List γ) : List γ :=
  curr.filter fun c => K.name c ∈ prev.map K.name

variable {K}

theorem rate_eq_exactRate (prev curr : UInt64) (seconds : ℚ) :
    K.rate prev curr seconds = K.exactRate seconds prev curr := by
  rw [rate_exact, exactRate, counterDelta_toNat]
  rcases le_total prev.toNat curr.toNat with h | h
  · rw [Nat.cast_sub h, max_eq_right (sub_nonneg.mpr (by exact_mod_cast h))]
  · rw [Nat.sub_eq_zero_of_le h, Nat.cast_zero, max_eq_left (sub_nonpos.mpr (by exact_mod_cast h))]

theorem find_eq_some_iff {snap : List γ} (hnodup : (snap.map K.name).Nodup) {name : CString 32}
    {p : γ} : K.find snap name = some p ↔ p ∈ snap ∧ K.name p = name := by
  constructor
  · intro h
    exact ⟨List.mem_of_find?_eq_some h, by simpa using List.find?_some h⟩
  · rintro ⟨hmem, rfl⟩
    obtain ⟨q, hq⟩ : ∃ q, K.find snap (K.name p) = some q := by
      rw [← Option.isSome_iff_exists, find, List.find?_isSome]
      exact ⟨p, hmem, decide_eq_true rfl⟩
    have hname : K.name q = K.name p := by simpa using List.find?_some hq
    rw [hq, List.inj_on_of_nodup_map hnodup (List.mem_of_find?_eq_some hq) hmem hname]

theorem find_eq_none_iff {snap : List γ} {name : CString 32} :
    K.find snap name = none ↔ name ∉ snap.map K.name := by
  simp [find]

/-- The position of a device does not matter. -/
theorem find_perm {snap snap' : List γ} (hperm : snap'.Perm snap)
    (hnodup : (snap.map K.name).Nodup) (name : CString 32) :
    K.find snap' name = K.find snap name := by
  have hnodup' : (snap'.map K.name).Nodup := (hperm.map K.name).nodup_iff.mpr hnodup
  apply Option.ext
  intro p
  rw [find_eq_some_iff hnodup', find_eq_some_iff hnodup, hperm.mem_iff]

theorem averaged_perm {prev prev' : List γ} (hperm : prev'.Perm prev)
    (hnodup : (prev.map K.name).Nodup) (seconds : ℚ) (curr : List γ) :
    K.averaged seconds prev' curr = K.averaged seconds prev curr := by
  apply List.filterMap_congr
  intro c _
  rw [find_perm hperm hnodup]

theorem averaged_joined (prev : List γ) (seconds : ℚ) (curr : List γ) :
    List.Forall₂ (K.Joined prev seconds) (K.known prev curr) (K.averaged seconds prev curr) := by
  induction curr with
  | nil => exact .nil
  | cons c rest ih =>
    rw [known, averaged, List.filterMap_cons]
    cases hfind : K.find prev (K.name c) with
    | none =>
      rw [List.filter_cons_of_neg (by simpa using find_eq_none_iff.mp hfind)]
      exact ih
    | some p =>
      have hp := List.mem_of_find?_eq_some hfind
      have hname : K.name p = K.name c := by simpa using List.find?_some hfind
      rw [List.filter_cons_of_pos (by
        rw [decide_eq_true_eq, ← hname]
        exact List.mem_map_of_mem hp)]
      refine .cons ⟨p, hp, hname, ?_⟩ ih
      simp only [rateEntry, K.rates_entry, rate_eq_exactRate, and_self]

/-- The names of the entries are those of the devices, in their order. -/
theorem names_of_joined {prev : List γ} {seconds : ℚ} {devices : List γ} {entries : List ρ}
    (h : List.Forall₂ (K.Joined prev seconds) devices entries) :
    entries.map (fun e => (K.rates e).1) = devices.map K.name := by
  induction h with
  | nil => rfl
  | cons hce _ ih =>
    obtain ⟨p, -, -, hname, -⟩ := hce
    rw [List.map_cons, List.map_cons, ih, hname]

/-- What `averaged` gives where the names of each snapshot differ. -/
theorem averaged_join {prev curr : List γ} (hprev : (prev.map K.name).Nodup)
    (hcurr : (curr.map K.name).Nodup) (seconds : ℚ) :
    List.Forall₂ (K.Joined prev seconds) (K.known prev curr) (K.averaged seconds prev curr) ∧
      ((K.averaged seconds prev curr).map fun e => (K.rates e).1).Nodup ∧
      ∀ prev' : List γ, prev'.Perm prev →
        K.averaged seconds prev' curr = K.averaged seconds prev curr := by
  have hjoined := averaged_joined (K := K) prev seconds curr
  refine ⟨hjoined, ?_, fun prev' hperm => averaged_perm hperm hprev seconds curr⟩
  rw [names_of_joined hjoined]
  exact hcurr.sublist (List.filter_sublist.map K.name)

end CounterKind

namespace DeviceJoin

theorem DiskStats.ext {s t : DiskStats} (h : s.items = t.items) : s = t := by
  cases s
  cases t
  cases h
  rfl

theorem NetStats.ext {s t : NetStats} (h : s.items = t.items) : s = t := by
  cases s
  cases t
  cases h
  rfl

/-- `e` is the entry of the disk `c`, with the rates of the disk of that name in `prev`. -/
def DiskRates (prev : DiskSnapshot) (intervalSec : Int32) (c : DiskCounter) (e : DiskRateEntry) : Prop :=
  ∃ p ∈ prev.items, p.name = c.name ∧ e.name = c.name ∧
    e.readBps = max 0 ((c.sectorsRead.toNat : ℚ) - p.sectorsRead.toNat) * 512 / intervalSec.toInt ∧
    e.writeBps =
      max 0 ((c.sectorsWritten.toNat : ℚ) - p.sectorsWritten.toNat) * 512 / intervalSec.toInt

/-- `e` is the entry of the interface `c`, with the rates of the one of that name in `prev`. -/
def NetRates (prev : NetSnapshot) (intervalSec : Int32) (c : NetCounter) (e : NetRateEntry) : Prop :=
  ∃ p ∈ prev.items, p.name = c.name ∧ e.name = c.name ∧
    e.rxBps = max 0 ((c.rxBytes.toNat : ℚ) - p.rxBytes.toNat) * 1 / intervalSec.toInt ∧
    e.txBps = max 0 ((c.txBytes.toNat : ℚ) - p.txBytes.toNat) * 1 / intervalSec.toInt

theorem disk_join {intervalSec : Int32} (hinterval : 0 < intervalSec) {prev curr : DiskSnapshot}
    (hprev : (prev.items.map DiskCounter.name).Nodup)
    (hcurr : (curr.items.map DiskCounter.name).Nodup) :
    ∃ stats, diskComputeStats intervalSec prev curr = some stats ∧
      List.Forall₂ (DiskRates prev intervalSec)
        (curr.items.filter fun c => c.name ∈ prev.items.map DiskCounter.name) stats.items ∧
      (stats.items.map DiskRateEntry.name).Nodup ∧
      ∀ prev' : DiskSnapshot, prev'.items.Perm prev.items →
        diskComputeStats intervalSec prev' curr = some stats := by
  obtain ⟨stats, hstats, hitems⟩ := diskComputeStats_eq hinterval prev curr
  obtain ⟨hjoined, hnames, hperm⟩ :=
    CounterKind.averaged_join (K := diskKind) hprev hcurr intervalSec.toInt
  rw [← hitems] at hjoined hnames
  refine ⟨stats, hstats, hjoined, hnames, ?_⟩
  intro prev' hprev'
  obtain ⟨stats', hstats', hitems'⟩ := diskComputeStats_eq hinterval prev' curr
  rw [hstats', DiskStats.ext (hitems'.trans ((hperm _ hprev').trans hitems.symm))]

theorem net_join {intervalSec : Int32} (hinterval : 0 < intervalSec) {prev curr : NetSnapshot}
    (hprev : (prev.items.map NetCounter.name).Nodup)
    (hcurr : (curr.items.map NetCounter.name).Nodup) :
    ∃ stats, netComputeStats intervalSec prev curr = some stats ∧
      List.Forall₂ (NetRates prev intervalSec)
        (curr.items.filter fun c => c.name ∈ prev.items.map NetCounter.name) stats.items ∧
      (stats.items.map NetRateEntry.name).Nodup ∧
      ∀ prev' : NetSnapshot, prev'.items.Perm prev.items →
        netComputeStats intervalSec prev' curr = some stats := by
  obtain ⟨stats, hstats, hitems⟩ := netComputeStats_eq hinterval prev curr
  obtain ⟨hjoined, hnames, hperm⟩ :=
    CounterKind.averaged_join (K := netKind) hprev hcurr intervalSec.toInt
  rw [← hitems] at hjoined hnames
  refine ⟨stats, hstats, hjoined, hnames, ?_⟩
  intro prev' hprev'
  obtain ⟨stats', hstats', hitems'⟩ := netComputeStats_eq hinterval prev' curr
  rw [hstats', NetStats.ext (hitems'.trans ((hperm _ hprev').trans hitems.symm))]

/-- **The rates are those of the devices both snapshots list**, each once and in
the current order, wherever it stands in the previous snapshot. -/
theorem compute_stats_join {intervalSec : Int32} (hinterval : 0 < intervalSec) :
    (∀ prev curr : DiskSnapshot, (prev.items.map DiskCounter.name).Nodup →
      (curr.items.map DiskCounter.name).Nodup →
      ∃ stats, diskComputeStats intervalSec prev curr = some stats ∧
        List.Forall₂ (DiskRates prev intervalSec)
          (curr.items.filter fun c => c.name ∈ prev.items.map DiskCounter.name) stats.items ∧
        (stats.items.map DiskRateEntry.name).Nodup ∧
        ∀ prev' : DiskSnapshot, prev'.items.Perm prev.items →
          diskComputeStats intervalSec prev' curr = some stats) ∧
    ∀ prev curr : NetSnapshot, (prev.items.map NetCounter.name).Nodup →
      (curr.items.map NetCounter.name).Nodup →
      ∃ stats, netComputeStats intervalSec prev curr = some stats ∧
        List.Forall₂ (NetRates prev intervalSec)
          (curr.items.filter fun c => c.name ∈ prev.items.map NetCounter.name) stats.items ∧
        (stats.items.map NetRateEntry.name).Nodup ∧
        ∀ prev' : NetSnapshot, prev'.items.Perm prev.items →
          netComputeStats intervalSec prev' curr = some stats :=
  ⟨fun _ _ hprev hcurr => disk_join hinterval hprev hcurr,
    fun _ _ hprev hcurr => net_join hinterval hprev hcurr⟩

/-- Two disks that changed places, one of them with a counter that was reset. -/
theorem compute_stats_join_example :
    let disk (name : String) (read written : UInt64) : DiskCounter :=
      ⟨CString.ofBytes 32 (ascii name), read, written⟩
    let prev : DiskSnapshot := ⟨[disk "sda" 10 7, disk "sdb" 4 4], by decide⟩
    let curr : DiskSnapshot := ⟨[disk "sdb" 6 4, disk "sdc" 1 1, disk "sda" 3 9], by decide⟩
    ∃ stats, diskComputeStats 2 prev curr = some stats ∧
      List.Forall₂ (DiskRates prev 2) [disk "sdb" 6 4, disk "sda" 3 9] stats.items := by
  intro disk prev curr
  obtain ⟨stats, hstats, hrates, -⟩ :=
    (compute_stats_join (show 0 < (2 : Int32) by decide)).1 prev curr (by decide) (by decide)
  exact ⟨stats, hstats, hrates⟩

end DeviceJoin

end Syswatch
