import Syswatch.DeviceListing
import Syswatch.ProcNetDev

/-! # The network event, from `/proc/net/dev` to JSON

The names of the interfaces reach the event unescaped, so that the event is
valid exactly when every name it lists is plain. -/

namespace Syswatch.NetworkEvent
open Lib.CText Lib.JsonText EventJson DeviceListing ProcNetDev

/-- The statistics `collector_thread` computes from two texts of `/proc/net/dev`. -/
def networkStats (cfg : SyswatchConfig) (before now : Bytes) : Option NetStats :=
  (netReadSnapshot (some before) cfg.includeLoopback).bind fun prev =>
    (netReadSnapshot (some now) cfg.includeLoopback).bind fun curr =>
      netComputeStats cfg.intervalSec prev curr

/-- The entries of the network event. -/
def listedInterfaces (st : Stamp) (stats : NetStats) : List NetRateEntry :=
  listed netEntryText 0 (header st .network ++
    ascii "\"interfaces\":[").length stats.items

/-! ## The text -/

/-- The text of the network event: nothing has been cut. -/
theorem network_text (st : Stamp) {intervalSec : Int32} {prev curr : NetSnapshot} {stats : NetStats}
    (h : netComputeStats intervalSec prev curr = some stats) :
    (Event.network stats).json st = some (header st .network ++
      arrayText (ascii "interfaces") (joined netEntryText 0 (listedInterfaces st stats))) := by
  rw [network_json]
  exact rateEvent_text netEntryText st .network (by decide) (netEntries_short (netComputeStats_pos h) h)

theorem resolveEventHost_readable (cfg : SyswatchConfig) (hostname : Option Bytes)
    {timestamp : CString 64} (hts : Rfc3339 timestamp.bytes) :
    (∃ host, Readable ⟨timestamp, resolveEventHost cfg hostname 256⟩ host) ∧
      ∀ b ∈ (resolveEventHost cfg hostname 256).bytes, 32 ≤ b := by
  obtain ⟨⟨host, hhost⟩, hprint, _⟩ :=
    jsonEscapeString_spec (some (hostBuffer cfg hostname).bytes) (n := 256) (by decide)
  exact ⟨⟨host, hts.plain, hhost⟩, hprint⟩

/-- The statistics come from two snapshots, and every name in them from both texts. -/
theorem networkStats_names {cfg : SyswatchConfig} {before now : List Interface}
    (hbefore : ∀ i ∈ before, PermittedName i.name) (hnow : ∀ i ∈ now, PermittedName i.name)
    {stats : NetStats} (h : networkStats cfg (procNetDev before) (procNetDev now) = some stats) :
    (∃ prev curr, netComputeStats cfg.intervalSec prev curr = some stats) ∧
      ∀ e ∈ stats.items, (∃ i ∈ before, i.name = e.name.bytes) ∧
        ∃ i ∈ now, i.name = e.name.bytes := by
  obtain ⟨prev, hprev, hpitems⟩ := netReadSnapshot_procNetDev cfg.includeLoopback hbefore
  obtain ⟨curr, hcurr, hcitems⟩ := netReadSnapshot_procNetDev cfg.includeLoopback hnow
  rw [networkStats, hprev, hcurr, Option.bind_some, Option.bind_some] at h
  refine ⟨⟨prev, curr, h⟩, fun e he => ?_⟩
  rw [netComputeStats_averaged (netComputeStats_pos h) h] at he
  obtain ⟨p, hp, c, hc, hpc, rfl⟩ := netKind.mem_averaged he
  rw [hpitems] at hp
  rw [hcitems] at hc
  obtain ⟨i, hi, rfl⟩ := mem_counters hp
  obtain ⟨j, hj, rfl⟩ := mem_counters hc
  have hnames : i.counter.name.bytes = j.counter.name.bytes := congrArg CString.bytes hpc
  rw [counter_name (hbefore i hi), counter_name (hnow j hj)] at hnames
  exact ⟨⟨i, hi, hnames.trans (counter_name (hnow j hj)).symm⟩, j, hj,
    (counter_name (hnow j hj)).symm⟩

/-- **The network event is valid JSON exactly when the names it lists are
plain.** The names are those of interfaces both texts list; a name with a
quote, a backslash or a control character breaks the event or is read as
another name. -/
theorem network_event_valid_iff (cfg : SyswatchConfig) (hostname : Option Bytes)
    {timestamp : CString 64} (hts : Rfc3339 timestamp.bytes) {before now : List Interface}
    (hbefore : ∀ i ∈ before, PermittedName i.name) (hnow : ∀ i ∈ now, PermittedName i.name)
    {stats : NetStats} (hstats : networkStats cfg (procNetDev before) (procNetDev now) = some stats) :
    let st : Stamp := ⟨timestamp, resolveEventHost cfg hostname 256⟩
    let names := (listedInterfaces st stats).map fun e => e.name.bytes
    (∀ name ∈ names, (∃ i ∈ before, i.name = name) ∧ ∃ i ∈ now, i.name = name) ∧
      ∃ text, (Event.network stats).json st = some text ∧
        (ValidEvent (ascii "interfaces") text names ↔ ∀ name ∈ names, ∀ b ∈ name, Plain b) := by
  intro st names
  obtain ⟨⟨prev, curr, hcompute⟩, hboth⟩ := networkStats_names hbefore hnow hstats
  obtain ⟨⟨host, hread⟩, hprint⟩ := resolveEventHost_readable cfg hostname hts
  have hlisted : ∀ e ∈ listedInterfaces st stats, e ∈ stats.items := fun e he =>
    (listed_sublist netEntryText stats.items _ _).mem he
  have hrates : ∀ e ∈ listedInterfaces st stats, Unsigned netKind.rates e := fun e he =>
    have hbounds := netComputeStats_rates (netComputeStats_pos hcompute) hcompute e (hlisted e he)
    ⟨hbounds.1.1, hbounds.2.1⟩
  have hnames : names.map some =
      (listedInterfaces st stats).map fun e => some (netKind.rates e).1.bytes := by
    simp only [names, List.map_map]
    rfl
  refine ⟨?_, _, network_text st hcompute, ?_, ?_⟩
  · intro name hname
    obtain ⟨e, he, rfl⟩ := List.mem_map.mp hname
    exact hboth e (hlisted e he)
  · rintro ⟨⟨v, hv, _, hn⟩, _⟩ name hname
    obtain ⟨e, he, rfl⟩ := List.mem_map.mp hname
    rw [hnames] at hn
    exact plain_of_parse hread .network (by decide) (by decide) (by decide) (by decide)
      (by decide) (by decide) hrates hv hn e he
  · intro hplain
    have hp : ∀ e ∈ listedInterfaces st stats, PlainName netKind.rates e := fun e he =>
      hplain _ (List.mem_map_of_mem he)
    exact validEvent_of_plain hread hprint .network
      (show ∀ b ∈ ascii "interfaces", Plain b by decide)
      (show ∀ b ∈ (114 : UInt8) :: ascii "x_bps", Plain b by decide)
      (show ∀ b ∈ ascii "tx_bps", Plain b by decide) hp hrates

/-! ## A name that is not plain -/

/-- An idle interface of that name. -/
def idle (name : Bytes) : Interface := ⟨name, 0, fun _ => 0, 0, fun _ => 0⟩

def idleStats (name : Bytes) : NetStats := ⟨[⟨CString.ofBytes 32 name, 0, 0⟩], by simp [MAX_INTERFACES]⟩

def sampleTimestamp : CString 64 := CString.ofBytes 64 (ascii "2026-04-28T14:23:01.234+02:00")

theorem sampleTimestamp_rfc3339 : Rfc3339 sampleTimestamp.bytes :=
  ⟨ascii "2026-04-28T14:23:01", ascii ".234", ascii "+02:00", by decide, by decide,
    .inr ⟨ascii "234", by decide, by decide, rfl⟩, .inr (.inr (by decide))⟩

/-- The snapshot of one idle interface. -/
def idleSnapshot (name : Bytes) : NetSnapshot := ⟨[(idle name).counter], by simp [MAX_INTERFACES]⟩

theorem networkStats_idle {name : Bytes} (h : PermittedName name) (hlo : name ≠ ascii "lo") :
    networkStats initDefaultConfig (procNetDev [idle name]) (procNetDev [idle name]) =
      netComputeStats 1 (idleSnapshot name) (idleSnapshot name) := by
  obtain ⟨⟨items, hsize⟩, hread, hitems⟩ := netReadSnapshot_procNetDev false
    (List.forall_mem_singleton.mpr h : ∀ i ∈ [idle name], PermittedName i.name)
  have hcounted : counted false [idle name] = [idle name] :=
    (counted_cons false (idle name) []).trans (if_pos (decide_eq_true hlo))
  rw [hcounted] at hitems
  cases hitems
  have hconfig : initDefaultConfig.includeLoopback = false ∧ initDefaultConfig.intervalSec = 1 :=
    ⟨rfl, rfl⟩
  rw [networkStats, hconfig.1, hread, hconfig.2]
  rfl

theorem permittedName_of_check {s : Bytes} (h : (1 ≤ s.length ∧ s.length ≤ 15) ∧ (0 : UInt8) ∉ s ∧
    (47 : UInt8) ∉ s ∧ (58 : UInt8) ∉ s ∧ ∀ b ∈ s, isSpace b = false) : PermittedName s :=
  ⟨h.1, h.2.1, h.2.2.1, h.2.2.2.1, h.2.2.2.2⟩

/-- The text for one idle interface with a quote in its name is no JSON at all. -/
theorem network_event_quote : PermittedName (ascii "a\"b") ∧ Rfc3339 sampleTimestamp.bytes ∧
    networkStats initDefaultConfig (procNetDev [idle (ascii "a\"b")])
      (procNetDev [idle (ascii "a\"b")]) = some (idleStats (ascii "a\"b")) ∧
    ∃ text, (Event.network (idleStats (ascii "a\"b"))).json
        ⟨sampleTimestamp, resolveEventHost initDefaultConfig (some (ascii "myhost")) 256⟩ = some text ∧
      ¬ValidEvent (ascii "interfaces") text [ascii "a\"b"] := by
  have hname : PermittedName (ascii "a\"b") := permittedName_of_check (by decide)
  refine ⟨hname, sampleTimestamp_rfc3339,
    (networkStats_idle hname (by decide)).trans (by decide +kernel), _,
    Option.eq_some_of_isSome (by decide +kernel), ?_⟩
  rintro ⟨⟨v, hv, _⟩, _⟩
  have hnone : (parse ((Event.network (idleStats (ascii "a\"b"))).json ⟨sampleTimestamp,
      resolveEventHost initDefaultConfig (some (ascii "myhost")) 256⟩ |>.get
        (by decide +kernel))).isNone = true := by decide +kernel
  rw [hv] at hnone
  cases hnone

theorem network_event_eth0 :
    let st : Stamp := ⟨sampleTimestamp, resolveEventHost initDefaultConfig (some (ascii "myhost")) 256⟩
    let names := (listedInterfaces st (idleStats (ascii "eth0"))).map fun e => e.name.bytes
    (∀ name ∈ names, (∃ i ∈ [idle (ascii "eth0")], i.name = name) ∧
      ∃ i ∈ [idle (ascii "eth0")], i.name = name) ∧
      ∃ text, (Event.network (idleStats (ascii "eth0"))).json st = some text ∧
        (ValidEvent (ascii "interfaces") text names ↔ ∀ name ∈ names, ∀ b ∈ name, Plain b) :=
  have hname : PermittedName (ascii "eth0") := permittedName_of_check (by decide)
  have hnames : ∀ i ∈ [idle (ascii "eth0")], PermittedName i.name := List.forall_mem_singleton.mpr hname
  network_event_valid_iff initDefaultConfig (some (ascii "myhost")) sampleTimestamp_rfc3339
    hnames hnames ((networkStats_idle hname (by decide)).trans (by decide +kernel))

end Syswatch.NetworkEvent
