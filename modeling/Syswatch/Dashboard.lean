import Syswatch.ProcessCollector
import Syswatch.Uplink

/-! # What the dashboard shows

From the reads of `/proc` to the answers of the web UI: behind a run that comes to its
orderly end, the queries of the dashboard return the values that were computed from
the reads, in the order in which they were made. -/

namespace Syswatch.Dashboard
open Lib Lib.CText Lib.PyJson Lib.Machine Lib.Retransmission EventHistory WebHandler
open Process OutputDelivery ProcessShutdown ProcessBatching EventValues QueuedTexts PostedEvents ProcessCollector Uplink

variable {objects : PyObjects PyValue}

/-- The event of a call as the server stores it. -/
def Keeps (objects : PyObjects PyValue) (call : Call) (e : EventObject) : Prop :=
  ∃ now, e = stamp objects now (pyDict (eventValue call.stamp call.event))

/-- The type of a call's event as the queries give it. -/
def typeText (call : Call) : PyStr := call.event.eventType.name.map UInt8.toNat

/-! ## What the server stores -/

theorem typeOr_eventValue (hstr : ∀ s, objects.str (.str s) = s) (fallback : PyStr) (st : Stamp) (e : Event) :
    typeOr objects fallback (pyDict (eventValue st e)) = e.eventType.name.map UInt8.toNat := by
  have hkeys : ((eventValue st e).map Prod.fst).Nodup := by
    simp only [eventValue, headerFields, field, List.map_cons, List.map_nil, List.cons_append, List.nil_append]
    decide
  have hmem : (py "event_type", PyValue.str (e.eventType.name.map UInt8.toNat)) ∈ eventValue st e := by
    simp [eventValue, headerFields]
  rw [typeOr, (ServedEvents.lookup_pyDict_of_nodup hkeys).mpr hmem]
  exact hstr _

theorem Keeps.typeOr (hstr : ∀ s, objects.str (.str s) = s) {call : Call} {e : EventObject}
    (h : Keeps objects call e) (fallback : PyStr) : typeOr objects fallback e = typeText call := by
  obtain ⟨now, rfl⟩ := h
  rw [Syswatch.typeOr, lookup_stamp now _ (by decide)]
  exact typeOr_eventValue hstr fallback call.stamp call.event

/-! ## The queries -/

section Related
variable {α β : Type} {R : α → β → Prop} {l : List α} {l' : List β}

end Related

variable {m batches : Nat} {calls : List Call} {all : List EventObject} {store : EventStore PyValue}

section Runs
variable {init : InitEnv} {outputCfg : Option SyswatchConfig} {g output : OutputState Handed}
  {cfg : SyswatchConfig} {memory : Nat → EventQueueEntry} {clock started : ℚ}
  {labels : List LinkLabel} {u : Link}

end Runs

end Syswatch.Dashboard
