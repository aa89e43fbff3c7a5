import Syswatch.BatchBody
import Syswatch.DiskEvent
import Syswatch.EscapeUtf8
import Syswatch.Lib.PyBytes

/-! # What Python reads of an event

The text of an event is formatted by hand. `json.loads` finds in it the fields of
the header and, under the keys of the payload, the numbers and the names of the
statistics: a percentage with one decimal place, a rate as a whole number. -/

namespace Syswatch.EventValues
open Lib CText JsonText Unicode PyBytes EventJson FixedEvents DeviceListing
open PyJson (PyValue)
open PyLimits (Short short_of_lt Fits FitsMembers fitsItems_iff fitsMembers_iff)
open WebHandler (field)

/-- UTF-8 for Python. -/
abbrev Utf8 (s : Bytes) : Prop := Encodes (· < 0x110000) s

theorem utf8_of_ascii {s : Bytes} (h : ∀ b ∈ s, b < 0x80) : Utf8 s :=
  ⟨asciiText s, encodable_asciiText s, (bytes_asciiText h).symm⟩

/-! ## The header -/

/-- The fields in front of the payload. -/
def headerFields (t : EventType) (timestamp host : PyStr) : List (PyStr × PyValue) :=
  [field "schema_version" "1.0", (py "timestamp", .str timestamp), (py "host", .str host),
    field "source" "syswatch", (py "source_version", .str (SYSWATCH_VERSION.map UInt8.toNat)),
    (py "event_type", .str (t.name.map UInt8.toNat)), field "severity" "info"]

/-- The timestamp and the host can stand between quotes, in UTF-8. -/
structure CleanStamp (st : Stamp) : Prop where
  timestamp : ∀ b ∈ st.timestamp.bytes, Plain b ∧ b < 0x80
  host : ∃ host, StringText st.host.bytes host
  printable : ∀ b ∈ st.host.bytes, 32 ≤ b
  utf8 : Utf8 st.host.bytes

theorem length_escaped (s : Bytes) : s.length ≤ (s.flatMap escaped).length := by
  rw [List.length_flatMap, ← Nat.mul_one s.length, ← @List.length_map _ _ s (List.length ∘ escaped)]
  refine List.card_nsmul_le_sum _ 1 fun n hn => ?_
  obtain ⟨b, -, rfl⟩ := List.mem_map.mp hn
  exact List.length_pos_iff.mpr (escaped_ne_nil b)

/-- A text that fits is not cut. -/
theorem not_cut_of_fits {s : Bytes} {room : Nat} (h : (s.flatMap escaped).length ≤ room) :
    ¬EscapeUtf8.CutInside s room := by
  rintro ⟨before, c, after, -, -, rfl, -, hend⟩
  have hlen := length_escaped (utf8 c)
  rw [EscapeUtf8.escapedText_append, List.flatMap_append, List.length_append, List.length_append] at h
  omega

/-- `json_escape_string` makes the host clean, unless its limit cuts a character. -/
theorem CleanStamp.of_escaped {st : Stamp} {name : Bytes} (h0 : (0 : UInt8) ∉ name) (hname : WellFormed name)
    (hcut : ¬EscapeUtf8.CutInside name (256 - 1)) (hhost : st.host.bytes = jsonEscapeString (some name) 256)
    (hts : ∀ b ∈ st.timestamp.bytes, Plain b ∧ b < 0x80) : CleanStamp st where
  timestamp := hts
  host := by
    obtain ⟨host, -, hread⟩ := jsonEscapeString_decodes name (show 0 < 256 by decide)
    exact ⟨host, hhost ▸ hread⟩
  printable := hhost ▸ (jsonEscapeString_spec (some name) (show 0 < 256 by decide)).2.1
  utf8 := hhost ▸ (EscapeUtf8.encodes_escape_iff (fun _ => isValidChar_lt) (fun _ h => h) h0 hname
    (by decide)).mpr hcut

/-- The host as Python reads it. -/
def hostText (st : Stamp) : PyStr :=
  match PyJson.loads (quoted st.host.bytes) with
  | .value (.str host) => host
  | _ => []

theorem spells_host {st : Stamp} (hst : CleanStamp st) : Spells (quoted st.host.bytes) (.str (hostText st)) := by
  obtain ⟨text, henc, hbytes⟩ := hst.utf8
  obtain ⟨written, hwritten⟩ := hst.host
  rw [hbytes] at hwritten
  obtain ⟨decoded, hdecoded⟩ := JsonUtf8.stringText_text henc hwritten
  have hspells := spells_string henc hdecoded
  rw [JsonUtf8.bytes, ← hbytes] at hspells
  have h0 : (0 : UInt8) ∉ quoted st.host.bytes := by
    simp only [quoted, List.mem_cons, List.mem_append, not_or]
    exact ⟨by decide, st.host.noNul, by decide, List.not_mem_nil⟩
  have hloads := hspells.loads h0 (by simp [quoted])
  rw [hostText, hloads]
  exact hspells

/-- The members of an event, with the payload behind its brace. -/
def eventMembers (st : Stamp) (t : EventType) (payload : Bytes) (v : PyValue) :
    List (Bytes × Bytes × PyValue) :=
  [(ascii "schema_version", quoted (ascii "1.0"), .str (asciiText (ascii "1.0"))),
    (ascii "timestamp", quoted st.timestamp.bytes, .str (asciiText st.timestamp.bytes)),
    (ascii "host", quoted st.host.bytes, .str (hostText st)),
    (ascii "source", quoted (ascii "syswatch"), .str (asciiText (ascii "syswatch"))),
    (ascii "source_version", quoted SYSWATCH_VERSION, .str (asciiText SYSWATCH_VERSION)),
    (ascii "event_type", quoted t.name, .str (asciiText t.name)),
    (ascii "severity", quoted (ascii "info"), .str (asciiText (ascii "info"))),
    (ascii "payload", 123 :: payload, v)]

theorem eventMembers_text (st : Stamp) (t : EventType) (payload : Bytes) (v : PyValue) :
    header st t ++ (payload ++ [125]) =
      123 :: (List.intercalate [44] ((eventMembers st t payload v).map fun m => member m.1 m.2.1) ++ [125]) := by
  simp [header_eq st t [], headerMembers, eventMembers, stringMembers, member]

theorem name_plain (t : EventType) : ∀ b ∈ t.name, Plain b ∧ b < 0x80 := by cases t <;> decide

/-- **An event for Python**: its header and its payload make one object with its fields. -/
theorem event_spells {st : Stamp} (hst : CleanStamp st) (t : EventType) {payload : Bytes} {v : PyValue}
    (hp : Spells (123 :: payload) v) : Spells (header st t ++ (payload ++ [125]))
      (.dict (headerFields t (asciiText st.timestamp.bytes) (hostText st) ++ [(py "payload", v)])) := by
  rw [eventMembers_text st t payload v]
  refine @spells_object (eventMembers st t payload v) ?_
  simp only [eventMembers, List.forall_mem_cons]
  exact ⟨⟨by decide, spells_ascii (by decide)⟩, ⟨by decide, spells_ascii hst.timestamp⟩,
    ⟨by decide, spells_host hst⟩, ⟨by decide, spells_ascii (by decide)⟩,
    ⟨by decide, spells_ascii (by decide)⟩, ⟨by decide, spells_ascii (name_plain t)⟩,
    ⟨by decide, spells_ascii (by decide)⟩, ⟨by decide, hp⟩, List.forall_mem_nil _⟩


/-! ## The payload -/

/-- A percentage as `%.1f` writes it. -/
def percentage (q : ℚ) : PyValue := .float (asciiText (fmtFixed1 q))

/-- A rate as `%.0f` writes it. -/
def rate (q : ℚ) : PyValue := .int (roundHalfEven q)

/-- The characters of a device name. -/
def nameText (name : Bytes) : PyStr := (utf8Decode name).getD []

/-- The device of a disk or network event, with the labels of its two rates. -/
def deviceValue (l₁ l₂ : Bytes) (e : CString 32 × ℚ × ℚ) : PyValue :=
  .dict [(py "name", .str (nameText e.1.bytes)), (asciiText l₁, rate e.2.1), (asciiText l₂, rate e.2.2)]

/-- The disks that the event lists, and the interfaces. -/
def diskValues (st : Stamp) (s : DiskStats) : List PyValue :=
  (listed diskEntryText 0 (eventStart st .disk (ascii "disks")).length s.items).map fun e =>
    deviceValue (ascii "read_bps") (ascii "write_bps") (diskKind.rates e)

def interfaceValues (st : Stamp) (s : NetStats) : List PyValue :=
  (listed netEntryText 0 (eventStart st .network (ascii "interfaces")).length s.items).map fun e =>
    deviceValue (ascii "rx_bps") (ascii "tx_bps") (netKind.rates e)

/-- The items of the payload. -/
def payloadValue (st : Stamp) : Event → List (PyStr × PyValue)
  | .warmingUp => []
  | .ready => []
  | .cpu s => [(py "usage_pct", percentage s.usagePct), (py "user_pct", percentage s.userPct),
      (py "system_pct", percentage s.systemPct), (py "idle_pct", percentage s.idlePct),
      (py "core_count", .int s.coreCount)]
  | .memory s => [(py "mem_total", .int s.memTotal.toNat), (py "mem_available", .int s.memAvailable.toNat),
      (py "mem_free", .int s.memFree.toNat), (py "mem_used", .int s.memUsed.toNat),
      (py "swap_total", .int s.swapTotal.toNat), (py "swap_free", .int s.swapFree.toNat),
      (py "swap_used", .int s.swapUsed.toNat)]
  | .disk s => [(py "disks", .list (diskValues st s))]
  | .network s => [(py "interfaces", .list (interfaceValues st s))]
  | .internal m => [(py "buffer_depth", .int m.bufferDepth.toNat),
      (py "events_dropped_total", .int m.eventsDroppedTotal.toNat),
      (py "events_emitted_total", .int m.eventsEmittedTotal.toNat)]

/-- The whole event. -/
def eventValue (st : Stamp) (e : Event) : List (PyStr × PyValue) :=
  headerFields e.eventType (asciiText st.timestamp.bytes) (hostText st) ++
    [(py "payload", .dict (payloadValue st e))]

/-- Under any stamp the event is the header and its payload: nothing is cut, and the
payload is the text of its value, on one line. The value fits into any interpreter. -/
def Valued (e : Event) : Prop :=
  ∀ st, ∃ payload, e.json st = some (header st e.eventType ++ (payload ++ [125])) ∧
    Spells (123 :: payload) (.dict (payloadValue st e)) ∧ Fits 640 (.dict (payloadValue st e)) 3 ∧
    ∀ b ∈ payload, 32 ≤ b

theorem Valued.spells {e : Event} (he : Valued e) {st : Stamp} (hst : CleanStamp st) {text : Bytes}
    (h : e.json st = some text) : Spells text (.dict (eventValue st e)) ∧ ∀ b ∈ text, 32 ≤ b := by
  obtain ⟨payload, hjson, hvalue, -, hprintable⟩ := he st
  rw [hjson] at h
  cases h
  refine ⟨event_spells hst e.eventType hvalue, ?_⟩
  rw [List.forall_mem_append, List.forall_mem_append]
  exact ⟨header_printable (fun b hb => (hst.timestamp b hb).1.1) hst.printable _, hprintable, by decide⟩

theorem Valued.fits {e : Event} (he : Valued e) (st : Stamp) : Fits 640 (.dict (eventValue st e)) 4 := by
  obtain ⟨payload, -, -, hfits, -⟩ := he st
  exact ⟨by decide, trivial, trivial, trivial, trivial, trivial, trivial, trivial, hfits, trivial⟩

/-- **A valued event is read back**, on any stack with room for its four brackets. -/
theorem Valued.loads {e : Event} (he : Valued e) {st : Stamp} (hst : CleanStamp st) {text : Bytes}
    (h : e.json st = some text) {limits : PyLimits.Limits} (hdepth : 4 ≤ limits.depth) :
    limits.loads text = .ok (.dict (eventValue st e)) := by
  obtain ⟨hspells, hprintable⟩ := he.spells hst h
  refine PyLimits.Limits.loads_eq_ok.mpr ⟨hspells.loads ?_ ?_, (he.fits st).admits hdepth⟩
  · exact fun h0 => absurd (hprintable 0 h0) (by decide)
  · obtain ⟨payload, hjson, -⟩ := he st
    rw [hjson] at h
    cases h
    intro a ha
    cases ha
    decide

/-! ## The events of fixed shape -/

theorem spells_percentage {q : ℚ} (h : 0 ≤ q) : Spells (fmtFixed1 q) (percentage q) := by
  rw [percentage, fmtFixed1_of_nonneg h]
  exact spells_fixed _ _

def measured (key : String) (q : ℚ) : Bytes × Bytes × PyValue := (ascii key, fmtFixed1 q, percentage q)

def counted (key : String) (n : Nat) : Bytes × Bytes × PyValue := (ascii key, decimal n, .int n)

/-- The members of the payload, with what each is read as. -/
def payloadItems : Event → List (Bytes × Bytes × PyValue)
  | .cpu s => [measured "usage_pct" s.usagePct, measured "user_pct" s.userPct,
      measured "system_pct" s.systemPct, measured "idle_pct" s.idlePct, counted "core_count" s.coreCount]
  | .memory s => [counted "mem_total" s.memTotal.toNat, counted "mem_available" s.memAvailable.toNat,
      counted "mem_free" s.memFree.toNat, counted "mem_used" s.memUsed.toNat,
      counted "swap_total" s.swapTotal.toNat, counted "swap_free" s.swapFree.toNat,
      counted "swap_used" s.swapUsed.toNat]
  | .internal m => [counted "buffer_depth" m.bufferDepth.toNat,
      counted "events_dropped_total" m.eventsDroppedTotal.toNat,
      counted "events_emitted_total" m.eventsEmittedTotal.toNat]
  | _ => []

theorem payloadItems_text (e : Event) :
    payloadText e = List.intercalate [44] ((payloadItems e).map fun m => member m.1 m.2.1) := by
  cases e <;> simp [payloadText, cpuPayload, memoryPayload, internalPayload, payloadItems, measured, counted,
    member, ascii, List.intercalate]

theorem payloadItems_value {e : Event} (he : InRange e) (st : Stamp) :
    (payloadItems e).map (fun m => (asciiText m.1, m.2.2)) = payloadValue st e := by
  cases e <;> first | rfl | exact he.elim

theorem spells_measured {key : String} (hkey : PlainKey (ascii key)) {q : ℚ} (h : 0 ≤ q) :
    PlainKey (measured key q).1 ∧ Spells (measured key q).2.1 (measured key q).2.2 :=
  ⟨hkey, spells_percentage h⟩

theorem spells_counted {key : String} (hkey : PlainKey (ascii key)) (n : Nat) :
    PlainKey (counted key n).1 ∧ Spells (counted key n).2.1 (counted key n).2.2 :=
  ⟨hkey, spells_decimal n⟩

theorem payloadItems_spelled {e : Event} (he : InRange e) :
    ∀ m ∈ payloadItems e, PlainKey m.1 ∧ Spells m.2.1 m.2.2 := by
  cases e <;> simp only [payloadItems, List.forall_mem_cons]
  case cpu s =>
    have hpct := he.2
    simp only [List.forall_mem_cons] at hpct
    obtain ⟨h₁, h₂, h₃, h₄, -⟩ := hpct
    exact ⟨spells_measured (by decide) h₁.1, spells_measured (by decide) h₂.1,
      spells_measured (by decide) h₃.1, spells_measured (by decide) h₄.1, spells_counted (by decide) _,
      List.forall_mem_nil _⟩
  case memory s =>
    exact ⟨spells_counted (by decide) _, spells_counted (by decide) _, spells_counted (by decide) _,
      spells_counted (by decide) _, spells_counted (by decide) _, spells_counted (by decide) _,
      spells_counted (by decide) _, List.forall_mem_nil _⟩
  case internal m =>
    exact ⟨spells_counted (by decide) _, spells_counted (by decide) _, spells_counted (by decide) _,
      List.forall_mem_nil _⟩
  all_goals exact List.forall_mem_nil _

theorem short_counter {n : Nat} (h : n < 2 ^ 64) : Short 640 n :=
  short_of_lt (k := 20) (h.trans (by decide)) (by decide)

theorem payloadValue_fits {e : Event} (he : InRange e) (st : Stamp) : Fits 640 (.dict (payloadValue st e)) 3 := by
  refine ⟨by decide, fitsMembers_iff.mpr ?_⟩
  cases e <;> simp only [payloadValue, List.forall_mem_cons]
  case cpu s =>
    have hcores : s.coreCount < 2 ^ 64 := he.1.trans_lt (by decide)
    exact ⟨trivial, trivial, trivial, trivial, short_counter hcores, List.forall_mem_nil _⟩
  case memory s =>
    have hword (w : UInt64) : Short 640 w.toNat := short_counter w.toNat_lt
    exact ⟨hword _, hword _, hword _, hword _, hword _, hword _, hword _, List.forall_mem_nil _⟩
  case internal m =>
    have hword (w : UInt64) : Short 640 w.toNat := short_counter w.toNat_lt
    exact ⟨hword _, hword _, hword _, List.forall_mem_nil _⟩
  case disk s => exact he.elim
  case network s => exact he.elim
  all_goals exact List.forall_mem_nil _

theorem valued_fixed {e : Event} (he : InRange e) : Valued e := by
  intro st
  refine ⟨payloadText e ++ [125], ?_, ?_, payloadValue_fits he st, ?_⟩
  · rw [json_eq he st, snprintf_fits (fullText_length he st), fullText, List.append_assoc]
    rfl
  · rw [payloadItems_text, ← payloadItems_value he st]
    exact spells_object (payloadItems_spelled he)
  · rw [List.forall_mem_append]
    exact ⟨fun b hb => (payloadText_printable he b hb).1, by decide⟩

/-! ## The events with an entry for each device -/

/-- A name that needs no escaping, in UTF-8. -/
structure CleanName (name : Bytes) : Prop where
  plain : ∀ b ∈ name, Plain b
  utf8 : Utf8 name

theorem CleanName.spells {name : Bytes} (h : CleanName name) : Spells (quoted name) (.str (nameText name)) := by
  obtain ⟨text, henc, hbytes⟩ := h.utf8
  have htext : nameText name = text := by rw [nameText, utf8Decode_iff.mpr ⟨henc, hbytes⟩]; rfl
  have hspells := spells_plain henc (fun b hb => h.plain b (hbytes ▸ hb))
  rwa [JsonUtf8.bytes, ← hbytes, ← htext] at hspells

theorem spells_rate {q : ℚ} (h : 0 ≤ q) : Spells (fmtFixed0 q) (rate q) := by
  rw [fmtFixed0_of_nonneg h]
  exact spells_decimal _

/-- The members of an entry. -/
def entryItems (l₁ l₂ : Bytes) (e : CString 32 × ℚ × ℚ) : List (Bytes × Bytes × PyValue) :=
  [(ascii "name", quoted e.1.bytes, .str (nameText e.1.bytes)), (l₁, fmtFixed0 e.2.1, rate e.2.1),
    (l₂, fmtFixed0 e.2.2, rate e.2.2)]

theorem spells_device {l₁ l₂ : Bytes} (hl₁ : PlainKey l₁) (hl₂ : PlainKey l₂) {e : CString 32 × ℚ × ℚ}
    (hname : CleanName e.1.bytes) (h₁ : 0 ≤ e.2.1) (h₂ : 0 ≤ e.2.2) :
    Spells (rateEntryText l₁ l₂ e) (deviceValue l₁ l₂ e) := by
  have hobject := @spells_object (entryItems l₁ l₂ e) (by
    simp only [entryItems, List.forall_mem_cons]
    exact ⟨⟨by decide, hname.spells⟩, ⟨hl₁, spells_rate h₁⟩, ⟨hl₂, spells_rate h₂⟩, List.forall_mem_nil _⟩)
  have htext : rateEntryText l₁ l₂ e =
      123 :: (List.intercalate [44] ((entryItems l₁ l₂ e).map fun m => member m.1 m.2.1) ++ [125]) := by
    simp [rateEntryText_eq, entryItems, List.intercalate]
  rw [htext]
  exact hobject

/-- An entry of some hundred bytes has no number of more. -/
theorem fits_device {l₁ l₂ : Bytes} {e : CString 32 × ℚ × ℚ} (hshort : (rateEntryText l₁ l₂ e).length < 500)
    (h₁ : 0 ≤ e.2.1) (h₂ : 0 ≤ e.2.2) : Fits 640 (deviceValue l₁ l₂ e) 1 := by
  have hrate {q : ℚ} (hq : 0 ≤ q) (hlen : (fmtFixed0 q).length ≤ 500) : Short 640 (roundHalfEven q) := by
    rw [fmtFixed0_of_nonneg hq, decimal_length_le_iff (by decide)] at hlen
    exact short_of_lt hlen (by decide)
  simp only [rateEntryText_eq, member, List.length_cons, List.length_append] at hshort
  exact ⟨by decide, trivial, hrate h₁ (by omega), hrate h₂ (by omega), trivial⟩

section Entries
variable {ρ : Type} {view : ρ → CString 32 × ℚ × ℚ} {c : UInt8} {l₁ l₂ key : Bytes}

theorem joined_later (entryText : ρ → Bytes) (es : List ρ) (i : Nat) :
    joined entryText (i + 1) es = es.flatMap fun e => 44 :: entryText e := by
  induction es generalizing i with
  | nil => rfl
  | cons e es ih =>
    rw [joined, ih, if_pos (Nat.succ_pos i)]
    rfl

theorem joined_intercalate (entryText : ρ → Bytes) (es : List ρ) :
    joined entryText 0 es = List.intercalate [44] (es.map entryText) := by
  cases es with
  | nil => rfl
  | cons e es =>
    rw [joined, if_neg (Nat.lt_irrefl 0), List.nil_append, joined_later, List.map_cons]
    induction es generalizing e with
    | nil => simp
    | cons e' es ih => simp [← ih e']

/-- The payload with an entry for each device. -/
theorem entries_spelled {es : List ρ} (hkey : PlainKey key) (hl₁ : PlainKey (c :: l₁)) (hl₂ : PlainKey l₂)
    (hnames : ∀ e ∈ es, CleanName (view e).1.bytes) (hrates : ∀ e ∈ es, Unsigned view e) :
    Spells (123 :: (member key (91 :: (joined (entryOf view c l₁ l₂) 0 es ++ [93])) ++ [125]))
      (.dict [(asciiText key, .list (es.map fun e => deviceValue (c :: l₁) l₂ (view e)))]) := by
  have harray := @spells_array (es.map fun e => (entryOf view c l₁ l₂ e, deviceValue (c :: l₁) l₂ (view e))) (by
    rw [List.forall_mem_map]
    exact fun e he => spells_device hl₁ hl₂ (hnames e he) (hrates e he).1 (hrates e he).2)
  have hobject := @spells_object [(key, _, _)] (List.forall_mem_singleton.mpr ⟨hkey, harray⟩)
  rw [List.map_map, List.map_map] at hobject
  rw [joined_intercalate]
  simpa [List.intercalate, Function.comp_def] using hobject

theorem entries_fit {es : List ρ} (hshort : ∀ e ∈ es, (entryOf view c l₁ l₂ e).length < 500)
    (hrates : ∀ e ∈ es, Unsigned view e) :
    Fits 640 (.dict [(asciiText key, .list (es.map fun e => deviceValue (c :: l₁) l₂ (view e)))]) 3 := by
  refine ⟨by decide, ⟨by decide, fitsItems_iff.mpr ?_⟩, trivial⟩
  rw [List.forall_mem_map]
  exact fun e he => fits_device (hshort e he) (hrates e he).1 (hrates e he).2

theorem entries_printable {es : List ρ} (hkey : PlainKey key) (hl₁ : PlainKey (c :: l₁)) (hl₂ : PlainKey l₂)
    (hnames : ∀ e ∈ es, CleanName (view e).1.bytes) (hrates : ∀ e ∈ es, Unsigned view e) :
    ∀ b ∈ member key (91 :: (joined (entryOf view c l₁ l₂) 0 es ++ [93])) ++ [125], 32 ≤ b := by
  have hentries := joined_printable (entryOf view c l₁ l₂) (fun e he => rateEntryText_printable
    (fun b hb => (hl₁ b hb).1.1) (fun b hb => (hl₂ b hb).1.1) (fun b hb => ((hnames e he).plain b hb).1)
    (hrates e he).1 (hrates e he).2) 0
  simp only [member, List.forall_mem_cons, List.forall_mem_append]
  exact ⟨⟨by decide, fun b hb => (hkey b hb).1.1, by decide, by decide, by decide, hentries,
    by decide, List.forall_mem_nil _⟩, by decide, List.forall_mem_nil _⟩

end Entries

theorem valued_disk {stats : DiskStats} (hshort : ∀ e ∈ stats.items, (diskEntryText e).length < 500)
    (hnames : ∀ e ∈ stats.items, CleanName e.name.bytes)
    (hrates : ∀ e ∈ stats.items, 0 ≤ e.readBps ∧ 0 ≤ e.writeBps) : Valued (.disk stats) := by
  intro st
  have hlisted {e : DiskRateEntry} (he : e ∈ listed diskEntryText 0
      (eventStart st .disk (ascii "disks")).length stats.items) : e ∈ stats.items :=
    (listed_sublist diskEntryText stats.items _ _).mem he
  have hspelled := @entries_spelled _ diskKind.rates 114 (ascii "ead_bps") (ascii "write_bps")
    (ascii "disks") _ (by decide) (by decide) (by decide) (fun e he => hnames e (hlisted he))
    (fun e he => hrates e (hlisted he))
  have hfits := @entries_fit _ diskKind.rates 114 (ascii "ead_bps") (ascii "write_bps")
    (ascii "disks") _ (fun e he => hshort e (hlisted he))
    (fun e he => hrates e (hlisted he))
  have hprintable := @entries_printable _ diskKind.rates 114 (ascii "ead_bps") (ascii "write_bps")
    (ascii "disks") _ (by decide) (by decide) (by decide) (fun e he => hnames e (hlisted he))
    (fun e he => hrates e (hlisted he))
  refine ⟨_, ?_, hspelled, hfits, hprintable⟩
  rw [disk_json, rateEvent_text diskEntryText st .disk (by decide) hshort, eventText, arrayText_eq,
    List.append_assoc]
  rfl

theorem valued_network {stats : NetStats} (hshort : ∀ e ∈ stats.items, (netEntryText e).length < 500)
    (hnames : ∀ e ∈ stats.items, CleanName e.name.bytes)
    (hrates : ∀ e ∈ stats.items, 0 ≤ e.rxBps ∧ 0 ≤ e.txBps) : Valued (.network stats) := by
  intro st
  have hlisted {e : NetRateEntry} (he : e ∈ listed netEntryText 0
      (eventStart st .network (ascii "interfaces")).length stats.items) : e ∈ stats.items :=
    (listed_sublist netEntryText stats.items _ _).mem he
  have hspelled := @entries_spelled _ netKind.rates 114 (ascii "x_bps") (ascii "tx_bps")
    (ascii "interfaces") _ (by decide) (by decide) (by decide) (fun e he => hnames e (hlisted he))
    (fun e he => hrates e (hlisted he))
  have hfits := @entries_fit _ netKind.rates 114 (ascii "x_bps") (ascii "tx_bps")
    (ascii "interfaces") _ (fun e he => hshort e (hlisted he))
    (fun e he => hrates e (hlisted he))
  have hprintable := @entries_printable _ netKind.rates 114 (ascii "x_bps") (ascii "tx_bps")
    (ascii "interfaces") _ (by decide) (by decide) (by decide) (fun e he => hnames e (hlisted he))
    (fun e he => hrates e (hlisted he))
  refine ⟨_, ?_, hspelled, hfits, hprintable⟩
  rw [network_json, rateEvent_text netEntryText st .network (by decide) hshort, eventText, arrayText_eq,
    List.append_assoc]
  rfl

end Syswatch.EventValues
