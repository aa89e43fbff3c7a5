import Syswatch.CollectorGrammar
import Syswatch.PostedEvents

/-! # The collector within the process

However the threads are interleaved, the collector does what it would do alone
with what it is given, and the queue accepts every text it makes. So the results
about the thread alone are results about the process. -/

namespace Syswatch.ProcessCollector
open Lib Lib.CText Lib.Machine QueueHistory Process CollectorGrammar EventValues QueuedTexts

/-! ## The texts hold no NUL -/

theorem ascii_noNul (t : EventType) : (0 : UInt8) ∉ t.name := by cases t <;> decide

theorem decimal_noNul (n : Nat) : (0 : UInt8) ∉ decimal n :=
  fun h => absurd (EventJson.decimal_printable n 0 h) (by decide)

theorem fmtFixed0_noNul (q : ℚ) : (0 : UInt8) ∉ fmtFixed0 q := by
  unfold fmtFixed0
  split <;> simp [decimal_noNul]

theorem tenths_noNul (q : ℚ) : (0 : UInt8) ∉ tenths q := by simp [tenths, decimal_noNul]

theorem fmtFixed1_noNul (q : ℚ) : (0 : UInt8) ∉ fmtFixed1 q := by
  unfold fmtFixed1
  split <;> simp [tenths_noNul]

theorem header_noNul (st : Stamp) (t : EventType) : (0 : UInt8) ∉ header st t := by
  simp only [header, List.mem_append, not_or]
  refine ⟨⟨⟨⟨⟨⟨⟨⟨by decide, st.timestamp.noNul⟩, by decide⟩, st.host.noNul⟩, by decide⟩, by decide⟩,
    by decide⟩, ascii_noNul t⟩, by decide⟩

theorem rateEntryText_noNul {l₁ l₂ : Bytes} (h₁ : (0 : UInt8) ∉ l₁) (h₂ : (0 : UInt8) ∉ l₂)
    (e : CString 32 × ℚ × ℚ) : (0 : UInt8) ∉ rateEntryText l₁ l₂ e := by
  simp only [rateEntryText, List.mem_append, not_or]
  refine ⟨⟨⟨⟨⟨⟨⟨⟨⟨⟨by decide, e.1.noNul⟩, by decide⟩, h₁⟩, by decide⟩, fmtFixed0_noNul _⟩, by decide⟩, h₂⟩,
    by decide⟩, fmtFixed0_noNul _⟩, by decide⟩

theorem printf_noNul {n : Nat} {w w' : Fill n} {s : Bytes} (hw : (0 : UInt8) ∉ w.text)
    (hs : (0 : UInt8) ∉ s) (h : w.printf s = some w') : (0 : UInt8) ∉ w'.text := by
  unfold Fill.printf at h
  split at h
  · cases h
    rw [List.mem_append, not_or]
    exact ⟨hw, fun h0 => hs (List.mem_of_mem_take h0)⟩
  · cases h

section Rates
variable {ρ : Type} {entryText : ρ → Bytes}

theorem rateLoop_noNul (he : ∀ e, (0 : UInt8) ∉ entryText e) (entries : List ρ) {i : Nat}
    {w w' : Fill 2048} (hw : (0 : UInt8) ∉ w.text) (h : rateLoop entryText i entries w = some w') :
    (0 : UInt8) ∉ w'.text := by
  induction entries generalizing i w with
  | nil =>
    cases h
    exact hw
  | cons e rest ih =>
    rw [rateLoop] at h
    split at h
    · simp only [Option.bind_eq_some_iff] at h
      obtain ⟨w₁, h₁, w₂, h₂, h₃⟩ := h
      refine ih (printf_noNul ?_ (he e) h₂) h₃
      split at h₁
      · exact printf_noNul hw (by decide) h₁
      · cases h₁
        exact hw
    · cases h
      exact hw

theorem rateEventText_noNul (he : ∀ e, (0 : UInt8) ∉ entryText e) {start : Bytes}
    (hs : (0 : UInt8) ∉ start) {entries : List ρ} {text : Bytes}
    (h : rateEventText start entryText entries = some text) : (0 : UInt8) ∉ text := by
  simp only [rateEventText, Option.bind_eq_bind, Option.bind_eq_some_iff] at h
  obtain ⟨w₁, h₁, w₂, h₂, w₃, h₃, heq⟩ := h
  cases heq
  exact printf_noNul (rateLoop_noNul he entries (printf_noNul List.not_mem_nil hs h₁) h₂) (by decide) h₃

end Rates

theorem snprintf_noNul {n : Nat} {s : Bytes} (h : (0 : UInt8) ∉ s) : (0 : UInt8) ∉ snprintf n s :=
  fun h0 => h (List.mem_of_mem_take h0)

/-- The string that is handed to `queue_enqueue` ends at its end. -/
theorem json_noNul {st : Stamp} {e : Event} {text : Bytes} (h : e.json st = some text) :
    (0 : UInt8) ∉ text := by
  have hh := header_noNul st e.eventType
  cases e with
  | disk s =>
    refine rateEventText_noNul (fun e => rateEntryText_noNul (by decide) (by decide) _) ?_ h
    exact List.not_mem_append hh (by decide)
  | network s =>
    refine rateEventText_noNul (fun e => rateEntryText_noNul (by decide) (by decide) _) ?_ h
    exact List.not_mem_append hh (by decide)
  | warmingUp | ready =>
    cases h
    exact snprintf_noNul (List.not_mem_append hh (by decide))
  | cpu s =>
    cases h
    refine snprintf_noNul (List.not_mem_append (List.not_mem_append hh ?_) (by decide))
    simp only [cpuPayload, List.mem_append, not_or]
    exact ⟨⟨⟨⟨⟨⟨⟨⟨⟨by decide, fmtFixed1_noNul _⟩, by decide⟩, fmtFixed1_noNul _⟩, by decide⟩,
      fmtFixed1_noNul _⟩, by decide⟩, fmtFixed1_noNul _⟩, by decide⟩, decimal_noNul _⟩
  | memory s =>
    cases h
    refine snprintf_noNul (List.not_mem_append (List.not_mem_append hh ?_) (by decide))
    simp only [memoryPayload, List.mem_append, not_or]
    exact ⟨⟨⟨⟨⟨⟨⟨⟨⟨⟨⟨⟨⟨by decide, decimal_noNul _⟩, by decide⟩, decimal_noNul _⟩, by decide⟩,
      decimal_noNul _⟩, by decide⟩, decimal_noNul _⟩, by decide⟩, decimal_noNul _⟩, by decide⟩,
      decimal_noNul _⟩, by decide⟩, decimal_noNul _⟩
  | internal m =>
    cases h
    refine snprintf_noNul (List.not_mem_append (List.not_mem_append hh ?_) (by decide))
    simp only [internalPayload, List.mem_append, not_or]
    exact ⟨⟨⟨⟨⟨by decide, decimal_noNul _⟩, by decide⟩, decimal_noNul _⟩, by decide⟩, decimal_noNul _⟩

/-! ## The thread alone -/

/-- The entry holds the text of the call's event. -/
def Carries (entry : EventQueueEntry) (call : Call) : Prop :=
  call.event.json call.stamp = some (textOf entry)

/-- What the collector is given by a step of the process. -/
def collectorInput : Label → Option CollectorInput
  | .collector i _ => some i
  | _ => none

/-- The thread alone is where it is in the process, and has made the calls whose
texts were accepted. -/
structure Recorded (s : Process) (l : CollectorLog) : Prop where
  linked : ProcessShutdown.Linked s
  collector : l.collector = s.collector
  calls : List.Forall₂ Carries s.tracked.accepted l.calls

theorem enqueues_carried {now : Option Timespec} {t t' : Tracked} {calls made : List Call}
    (hin : t.queue.InRange) (h : Enqueues now t calls t') (hc : List.Forall₂ Carries t.accepted made) :
    List.Forall₂ Carries t'.accepted (made ++ calls) := by
  cases h with
  | none => rwa [List.append_nil]
  | @one call json hj =>
    obtain ⟨hpos, hlen⟩ := Event.json_length hj
    rw [(enqueue_accepted hin (pointer json) now hpos hlen).1]
    refine List.rel_append hc (.cons ?_ .nil)
    rw [Carries, textOf_fillEntry _ now (json_noNul hj) hlen, hj]

/-- A step of the collector within the process is one of the thread alone. -/
theorem step_collector {cfg : SyswatchConfig} {s s' : Process} {i : CollectorInput} {now : Option Timespec}
    (h : step cfg s (.collector i now) = some s') : ∃ calls,
      Syswatch.collectorStep cfg s.collector i = some (s'.collector, calls) ∧
        Enqueues now s.tracked calls s'.tracked := by
  rw [step, Process.collectorStep] at h
  split_ifs at h with hs
  obtain ⟨⟨c, calls⟩, hc, h⟩ := Option.bind_eq_some_iff.mp h
  obtain ⟨t, ht, h⟩ := Option.map_eq_some_iff.mp h
  cases h
  exact ⟨calls, hc, enqueues_of_calls (collectorMove_calls (Syswatch.collectorStep_cases hc)) ht⟩

/-- A step of another thread leaves what is recorded. -/
theorem Recorded.frame {s s' : Process} {l : CollectorLog} (h : Recorded s l)
    (hlinked : ProcessShutdown.Linked s') (hcollector : s'.collector = s.collector)
    (haccepted : s'.tracked.accepted = s.tracked.accepted) : Recorded s' l :=
  ⟨hlinked, h.collector.trans hcollector.symm, haccepted ▸ h.calls⟩

/-- One that is no step of the collector. -/
theorem step_other {cfg : SyswatchConfig} {s s' : Process} {l : CollectorLog} {label : Label}
    (h : Recorded s l) (hm : Move cfg s label s') (hlabel : collectorInput label = none) : Recorded s' l := by
  have hlinked := ProcessShutdown.step_linked h.linked hm
  cases hm with
  | signal => exact h.frame hlinked rfl rfl
  | tick now hc => exact h.frame hlinked rfl rfl
  | collector hs hc he => cases hlabel
  | delivery hd =>
    obtain ⟨-, -, -, hcollector, -⟩ := ProcessShutdown.deliveryMove_frame hd
    refine h.frame hlinked hcollector ?_
    rcases ProcessShutdown.deliveryMove_queue hd with ht | ht
    · rw [ht]
    · rw [ht]
      rfl
  | main hc => cases hc <;> exact h.frame hlinked rfl rfl

theorem step_recorded {cfg : SyswatchConfig} {s s' : Process} {l : CollectorLog} {label : Label}
    (h : Recorded s l) (hs : step cfg s label = some s') :
    (collectorInput label = none → Recorded s' l) ∧
      ∀ i, collectorInput label = some i → ∃ l', l.step cfg i = some l' ∧ Recorded s' l' := by
  refine ⟨step_other h (step_cases hs), fun k hk => ?_⟩
  cases label with
  | collector i now =>
    cases hk
    obtain ⟨calls, hc, he⟩ := step_collector hs
    obtain ⟨lost, hlaw⟩ := h.linked.queue
    rw [← h.collector] at hc
    exact ⟨_, by rw [CollectorLog.step, hc, Option.map_some],
      ProcessShutdown.step_linked h.linked (step_cases hs), rfl,
      enqueues_carried hlaw.inRange he h.calls⟩
  | _ => cases hk

variable {cfg : SyswatchConfig} {memory : Nat → EventQueueEntry} {clock : ℚ}
  {output : OutputState Handed} {labels : List Label} {s : Process}

theorem run_recorded (h : run (step cfg) (.start memory clock output) labels = some s) :
    ∃ l, run (CollectorLog.step cfg) .start (labels.filterMap collectorInput) = some l ∧ Recorded s l :=
  @run_part _ _ (step cfg) _ _ (CollectorLog.step cfg) collectorInput Recorded
    (fun _ _ _ _ hr hs => step_recorded hr hs) _ _ _ _
    ⟨ProcessShutdown.start_linked memory clock output, rfl, .nil⟩ h

/-! ## What is measured -/

/-- A call with any event but the self-metrics. -/
def isReport (c : Call) : Bool := c.event.eventType ≠ .internal

/-- The stamp that a step makes. -/
def stampsOf : CollectorInput → List Stamp
  | .stamp st => [st]
  | .sample _ st => [st]
  | _ => []

/-- The events that one stamp is for, with these reads, the first of them the baseline. -/
def groups (cfg : SyswatchConfig) (reads : List Reads) : List (List Event) :=
  [.warmingUp] :: [.ready] :: (metricsOf cfg (reads.take 1) (reads.drop 1)).map metricEvents

/-- The calls of a run but those for the self-metrics. -/
def reports (cfg : SyswatchConfig) (stamps : List Stamp) (reads : List Reads) : List Call :=
  (stamps.zip (groups cfg reads)).flatMap fun g => g.2.map (Call.mk g.1)

/-- The calls that are still to come of an iteration. -/
def waiting : CollectorPc → List Call
  | .emit st pending => pending.map (Call.mk st)
  | _ => []

/-- The stamps there have been, after so many reads. -/
def stampsAt (c : Collector) (reads : Nat) : Nat :=
  match c.pc with
  | .warmUp => 0
  | _ => if c.firstIteration then 1 else reads + 1

/-- What the thread has reported after some inputs. -/
structure Reported (cfg : SyswatchConfig) (is : List CollectorInput) (l : CollectorLog) : Prop where
  lawful : Lawful cfg l
  reads : l.reads = is.flatMap readsOf
  stamps : (is.flatMap stampsOf).length = stampsAt l.collector l.reads.length
  calls : l.calls.filter isReport ++ waiting l.collector.pc = reports cfg (is.flatMap stampsOf) l.reads
  waits : ∀ call ∈ waiting l.collector.pc, isReport call

/-- What a step has to show. -/
theorem Reported.grow {cfg : SyswatchConfig} {is : List CollectorInput} {i : CollectorInput}
    {l l' : CollectorLog} (h : Reported cfg is l) (hlawful : Lawful cfg l')
    (hreads : l'.reads = l.reads ++ readsOf i)
    (hat : stampsAt l'.collector l'.reads.length =
      stampsAt l.collector l.reads.length + (stampsOf i).length)
    (hcalls : l'.calls.filter isReport ++ waiting l'.collector.pc =
      reports cfg (is.flatMap stampsOf ++ stampsOf i) (l.reads ++ readsOf i))
    (hwaits : ∀ call ∈ waiting l'.collector.pc, isReport call) : Reported cfg (is ++ [i]) l' where
  lawful := hlawful
  reads := by rw [hreads, List.flatMap_append, List.flatMap_singleton, h.reads]
  stamps := by
    rw [List.flatMap_append, List.flatMap_singleton, List.length_append, h.stamps, hat]
  calls := by rw [hcalls, hreads, List.flatMap_append, List.flatMap_singleton]
  waits := hwaits

/-- A step that reads nothing and makes no stamp. -/
theorem Reported.move {cfg : SyswatchConfig} {is : List CollectorInput} {i : CollectorInput}
    {l l' : CollectorLog} (h : Reported cfg is l) (hlawful : Lawful cfg l')
    (hreads : l'.reads = l.reads ++ readsOf i) (hreadsOf : readsOf i = []) (hstamps : stampsOf i = [])
    {made : List Call} (hcalls : l'.calls = l.calls ++ made)
    (hwaiting : made.filter isReport ++ waiting l'.collector.pc = waiting l.collector.pc)
    (hwaits : ∀ call ∈ waiting l'.collector.pc, call ∈ waiting l.collector.pc)
    (hat : stampsAt l'.collector l.reads.length = stampsAt l.collector l.reads.length) :
    Reported cfg (is ++ [i]) l' := by
  refine h.grow hlawful hreads ?_ ?_ fun call hcall => h.waits call (hwaits call hcall)
  · rw [hreads, hreadsOf, List.append_nil, hat, hstamps]
    rfl
  · rw [hcalls, hreadsOf, hstamps, List.append_nil, List.append_nil, List.filter_append, List.append_assoc,
      hwaiting, h.calls]

/-- With nothing waiting, the reports are all made. -/
theorem Reported.made {cfg : SyswatchConfig} {is : List CollectorInput} {l : CollectorLog}
    (h : Reported cfg is l) (hpc : waiting l.collector.pc = []) :
    l.calls.filter isReport = reports cfg (is.flatMap stampsOf) l.reads := by
  rw [← h.calls, hpc, List.append_nil]

section Places
variable {cfg : SyswatchConfig} {is : List CollectorInput} {l : CollectorLog}

/-- Before the iterations there are one read and one stamp. -/
theorem Reported.first (h : Reported cfg is l) (hpc : l.collector.pc = .ready) :
    (∃ r, l.reads = [r]) ∧ ∃ st, is.flatMap stampsOf = [st] := by
  have hfirst := h.lawful.entered hpc
  have hstamps := h.stamps
  rw [stampsAt, hpc, hfirst] at hstamps
  refine ⟨List.length_eq_one_iff.mp (le_antisymm (h.lawful.first hfirst) ?_), List.length_eq_one_iff.mp hstamps⟩
  rw [h.lawful.count, hpc]
  exact Nat.succ_pos _

end Places

/-- **The process keeps to the thread.** Its collector runs as the thread does alone
on the same inputs, and the entries that the queue has accepted are the texts of the
calls that the thread makes, in their order. -/
theorem collector_refines (h : run (step cfg) (.start memory clock output) labels = some s) :
    ∃ l, run (CollectorLog.step cfg) .start (labels.filterMap collectorInput) = some l ∧
      l.collector = s.collector ∧ List.Forall₂ Carries s.tracked.accepted l.calls := by
  obtain ⟨l, hl, hr⟩ := run_recorded h
  exact ⟨l, hl, hr.collector, hr.calls⟩

theorem collector_refines_example : ∃ s l, run (step initDefaultConfig) ProcessShutdown.begin
      ProcessShutdown.measuredRun = some s ∧
    run (CollectorLog.step initDefaultConfig) .start
      (ProcessShutdown.measuredRun.filterMap collectorInput) = some l ∧
    s.tracked.accepted.length = 7 ∧ l.collector = s.collector ∧
    List.Forall₂ Carries s.tracked.accepted l.calls := by
  have h : (run (step initDefaultConfig) ProcessShutdown.begin ProcessShutdown.measuredRun).map
      (fun s => s.tracked.accepted.length) = some 7 := by decide +kernel
  obtain ⟨s, hs, hlen⟩ := Option.map_eq_some_iff.mp h
  obtain ⟨l, hl, hcollector, hcalls⟩ := collector_refines hs
  exact ⟨s, l, hs, hl, hlen, hcollector, hcalls⟩

/-- The stamps that a run has made. -/
def stampsIn (labels : List Label) : List Stamp := (labels.filterMap collectorInput).flatMap stampsOf

/-- Its reads of `/proc`, the baseline and one for each iteration. -/
def readsIn (labels : List Label) : List Reads := (labels.filterMap collectorInput).flatMap readsOf

/-- Python reads the entry as the event of the call, on any stack with room for four
brackets. -/
def Shows (entry : EventQueueEntry) (call : Call) : Prop :=
  ∀ limits : PyLimits.Limits, 4 ≤ limits.depth →
    limits.loads (textOf entry) = .ok (.dict (eventValue call.stamp call.event))

end Syswatch.ProcessCollector
