import Syswatch.CpuUsage
import Syswatch.EventValues
import Syswatch.ProcessProgress

/-! # The texts in the queue

Each text that the queue accepts in a run is one JSON object on one line, in which
a reader of UTF-8 finds the fields of an event. What the collector is given need
only be clean: no name and no timestamp has to be escaped. -/

namespace Syswatch.QueuedTexts
open Lib CText Lib.Machine EventValues FixedEvents DeviceListing QueueHistory
open QueueSoundness (fillEntry_bytes)
open Process (Move Enqueues step_cases)

/-- The items of an event of this type. -/
def Fields (t : EventType) (members : List (PyStr × PyJson.PyValue)) : Prop :=
  ∃ timestamp host payload,
    members = headerFields t timestamp host ++ [(py "payload", .dict payload)]

/-! ## What the collector is given -/

/-- The devices that are read have clean names. -/
def CleanReads (r : Reads) : Prop :=
  (∀ snapshot ∈ r.disk, ∀ d ∈ snapshot.items, CleanName d.name.bytes) ∧
    ∀ snapshot ∈ r.net, ∀ d ∈ snapshot.items, CleanName d.name.bytes

def CleanInput : CollectorInput → Prop
  | .stamp st => CleanStamp st
  | .sample r st => CleanReads r ∧ CleanStamp st
  | _ => True

def CleanLabel : Label → Prop
  | .collector i _ => CleanInput i
  | _ => True

theorem cpu_inRange {prev curr : CpuSnapshot} {stats : CpuStats} (h : cpuComputeStats prev curr = some stats) :
    InRange (.cpu stats) := by
  obtain ⟨husage, huser, hsystem, hidle⟩ := CpuUsage.cpuPctFromDelta_percentages prev.total curr.total
  cases h
  refine ⟨(Nat.min_le_left _ _).trans prev.bound, ?_⟩
  simp only [List.forall_mem_cons]
  exact ⟨husage, huser, hsystem, hidle, by simp⟩

theorem shown_mem {α : Type} {enabled : Bool} {read : Option α} {x : α} (h : shown enabled read = some x) :
    x ∈ read := by
  cases enabled with
  | false => cases h
  | true => exact h

/-- Clean reads lead to valued events. -/
theorem metricEvents_valued {cfg : SyswatchConfig} (samples : Samples) {r : Reads} (hr : CleanReads r) :
    ∀ e ∈ metricEvents (collect cfg samples r).1, Valued e := by
  intro e he
  simp only [metricEvents, List.mem_append, Option.mem_toList, Option.map_eq_some_iff] at he
  rcases he with ((⟨s, hs, rfl⟩ | ⟨s, -, rfl⟩) | ⟨s, hs, rfl⟩) | ⟨s, hs, rfl⟩
  · obtain ⟨prev, curr, -, h⟩ := Sampling.Sensor.sample_eq_some hs
    exact valued_fixed (cpu_inRange h)
  · exact valued_fixed trivial
  · obtain ⟨prev, curr, hread, h⟩ := Sampling.Sensor.sample_eq_some hs
    have hi := diskComputeStats_pos h
    refine valued_disk (diskEntries_short hi h) (fun e he => ?_) fun e he =>
      have hrates := diskComputeStats_rates hi h e he
      ⟨hrates.1.1, hrates.2.1⟩
    rw [diskComputeStats_averaged hi h] at he
    obtain ⟨p, -, c, hc, -, rfl⟩ := diskKind.mem_averaged he
    exact hr.1 curr (shown_mem hread) c hc
  · obtain ⟨prev, curr, hread, h⟩ := Sampling.Sensor.sample_eq_some hs
    have hi := netComputeStats_pos h
    refine valued_network (netEntries_short hi h) (fun e he => ?_) fun e he =>
      have hrates := netComputeStats_rates hi h e he
      ⟨hrates.1.1, hrates.2.1⟩
    rw [netComputeStats_averaged hi h] at he
    obtain ⟨p, -, c, hc, -, rfl⟩ := netKind.mem_averaged he
    exact hr.2 curr (shown_mem hread) c hc

/-! ## Every run -/

/-- What the collector is about to enqueue is valued, and its stamp is clean. -/
def Prepared : CollectorPc → Prop
  | .emit st pending => CleanStamp st ∧ ∀ e ∈ pending, Valued e
  | .dropped st => CleanStamp st
  | .internal st => CleanStamp st
  | _ => True

theorem prepared_awake (c : Collector) : Prepared c.awake := by
  unfold Collector.awake
  split <;> trivial

theorem collectorMove_prepared {cfg : SyswatchConfig} {c c' : Collector}
    {i : CollectorInput} {calls : List Call} (h : CollectorMove cfg c i c' calls) (hi : CleanInput i)
    (hp : Prepared c.pc) :
    Prepared c'.pc ∧ ∀ call ∈ calls, CleanStamp call.stamp ∧ Valued call.event := by
  cases h with
  | warmUp st hpc => exact ⟨trivial, List.forall_mem_singleton.mpr ⟨hi, valued_fixed trivial⟩⟩
  | ready st hpc => exact ⟨trivial, List.forall_mem_singleton.mpr ⟨hi, valued_fixed trivial⟩⟩
  | slept hpc => exact ⟨prepared_awake c, List.forall_mem_nil _⟩
  | resume hpc => exact ⟨prepared_awake c, List.forall_mem_nil _⟩
  | collect r st hpc => exact ⟨⟨hi.2, metricEvents_valued c.samples hi.1⟩, List.forall_mem_nil _⟩
  | emit st e pending hpc =>
    rw [hpc] at hp
    obtain ⟨hst, hpending⟩ := hp
    rw [List.forall_mem_cons] at hpending
    exact ⟨⟨hst, hpending.2⟩, List.forall_mem_singleton.mpr ⟨hst, hpending.1⟩⟩
  | depth st size hpc =>
    rw [hpc] at hp
    exact ⟨hp.1, List.forall_mem_nil _⟩
  | dropped st count hpc =>
    rw [hpc] at hp
    exact ⟨hp, List.forall_mem_nil _⟩
  | internal st hpc =>
    rw [hpc] at hp
    exact ⟨trivial, List.forall_mem_singleton.mpr ⟨hp, valued_fixed trivial⟩⟩
  | _ => exact ⟨trivial, List.forall_mem_nil _⟩

/-- One event of this type on one line, with no number that is too long for Python. -/
structure IsEventText (text : Bytes) (t : EventType) (members : List (PyStr × PyJson.PyValue)) : Prop where
  fields : Fields t members
  object : BatchBody.JsonObject text members
  printable : ∀ b ∈ text, 32 ≤ b
  fits : PyLimits.Fits 640 (.dict members) 4

/-- The text that `output_emit_event` is given for an entry. -/
def textOf (entry : EventQueueEntry) : Bytes := cstr entry.jsonData.bytes

theorem textOf_fillEntry (old : EventQueueEntry) {json : Bytes} (now : Option Timespec)
    (h0 : (0 : UInt8) ∉ json) (hlen : json.length < MAX_EVENT_SIZE) :
    textOf (fillEntry old (pointer json) json.length now) = json := by
  have hcopied : (List.range json.length).map (pointer json) = json := by
    refine List.ext_getElem (by simp) fun i _ hi => ?_
    simp [pointer, hi]
  rw [textOf, fillEntry_bytes old (pointer json) now hlen, hcopied, cstr_append_nul h0]

theorem call_text {call : Call} (hst : CleanStamp call.stamp) (he : Valued call.event) {json : Bytes}
    (h : call.event.json call.stamp = some json) :
    ∃ t members, IsEventText json t members := by
  obtain ⟨hspells, hprintable⟩ := he.spells hst h
  exact ⟨_, _, ⟨_, _, _, rfl⟩, hspells.decoded, hprintable, he.fits call.stamp⟩

structure Texted (s : Process) : Prop where
  linked : ProcessShutdown.Linked s
  prepared : Prepared s.collector.pc
  accepted : ∀ entry ∈ s.tracked.accepted, ∃ t members, IsEventText (textOf entry) t members

theorem enqueues_texted {now : Option Timespec} {t t' : Tracked} {calls : List Call}
    (hin : t.queue.InRange) (h : Enqueues now t calls t')
    (hcalls : ∀ call ∈ calls, CleanStamp call.stamp ∧ Valued call.event)
    (ht : ∀ entry ∈ t.accepted, ∃ t members, IsEventText (textOf entry) t members) :
    ∀ entry ∈ t'.accepted, ∃ t members, IsEventText (textOf entry) t members := by
  cases h with
  | none => exact ht
  | @one c json hj =>
    obtain ⟨hpos, hlen⟩ := Event.json_length hj
    obtain ⟨hst, he⟩ := hcalls c (List.mem_singleton_self c)
    obtain ⟨type, members, htext⟩ := call_text hst he hj
    have h0 : (0 : UInt8) ∉ json := fun h0 => absurd (htext.printable 0 h0) (by decide)
    rw [(enqueue_accepted hin (pointer json) now hpos hlen).1]
    simp only [List.forall_mem_append, List.forall_mem_singleton]
    exact ⟨ht, type, members, by rwa [textOf_fillEntry _ now h0 hlen]⟩

theorem step_texted {cfg : SyswatchConfig} {s s' : Process} {l : Label} (h : Texted s)
    (hl : CleanLabel l) (hm : Move cfg s l s') : Texted s' := by
  have hlinked := ProcessShutdown.step_linked h.linked hm
  cases hm with
  | signal => exact { h with linked := hlinked }
  | tick now hc => exact { h with linked := hlinked }
  | collector hs hc he =>
    obtain ⟨lost, hlaw⟩ := h.linked.queue
    obtain ⟨hprepared, hcalls⟩ := collectorMove_prepared hc hl h.prepared
    exact ⟨hlinked, hprepared, enqueues_texted hlaw.inRange he hcalls h.accepted⟩
  | delivery hd =>
    obtain ⟨-, -, -, hcollector, -⟩ := ProcessShutdown.deliveryMove_frame hd
    refine ⟨hlinked, hcollector ▸ h.prepared, ?_⟩
    rcases ProcessShutdown.deliveryMove_queue hd with ht | ht
    · exact ht ▸ h.accepted
    · exact ht ▸ h.accepted
  | main hc => cases hc <;> exact { h with linked := hlinked }

theorem run_texted {cfg : SyswatchConfig} {s₀ s : Process} {labels : List Label} (h₀ : Texted s₀)
    (hclean : ∀ l ∈ labels, CleanLabel l) (h : run (Process.step cfg) s₀ labels = some s) : Texted s := by
  refine run_invariant (P := fun ls t => (∀ l ∈ ls, CleanLabel l) → Texted t) (fun _ => h₀) ?_ h hclean
  intro ls t l u _ ih hu hls
  rw [List.forall_mem_append, List.forall_mem_singleton] at hls
  exact step_texted (ih hls.1) hls.2 (step_cases hu)

theorem start_texted (memory : Nat → EventQueueEntry) (clock : ℚ) (output : OutputState Handed) :
    Texted (.start memory clock output) where
  linked := ProcessShutdown.start_linked memory clock output
  prepared := trivial
  accepted := List.forall_mem_nil _

end Syswatch.QueuedTexts
