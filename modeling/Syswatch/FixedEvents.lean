import Syswatch.EventJson
import Syswatch.Queue

/-! # The events of fixed shape

The lifecycle, cpu, memory and internal events are one `snprintf` each. Their
texts fit whatever the fields hold, and decode to the numbers they are given;
of a percentage the event keeps one decimal place. -/

namespace Syswatch.FixedEvents
open Lib.CText Lib.JsonText EventJson

/-! ## The payloads -/

/-- The event is one of those of fixed shape, and what it is given is in range. -/
def InRange : Event → Prop
  | .cpu s => s.coreCount ≤ MAX_CORES ∧
    ∀ q ∈ [s.usagePct, s.userPct, s.systemPct, s.idlePct], 0 ≤ q ∧ q ≤ 100
  | .disk _ => False
  | .network _ => False
  | _ => True

/-- The array the event is formatted into. -/
def arraySize : Event → Nat
  | .warmingUp => 512
  | .ready => 512
  | _ => 1024

/-- The keys of the payload. -/
def payloadKeys : EventType → List Bytes
  | .cpu => [ascii "usage_pct", ascii "user_pct", ascii "system_pct", ascii "idle_pct",
    ascii "core_count"]
  | .memory => [ascii "mem_total", ascii "mem_available", ascii "mem_free", ascii "mem_used",
    ascii "swap_total", ascii "swap_free", ascii "swap_used"]
  | .internal => [ascii "buffer_depth", ascii "events_dropped_total", ascii "events_emitted_total"]
  | _ => []

/-- The numbers the event is given; `keep` is what happens to a percentage. -/
def payloadValues (keep : ℚ → ℚ) : Event → List ℚ
  | .cpu s => [keep s.usagePct, keep s.userPct, keep s.systemPct, keep s.idlePct, s.coreCount]
  | .memory s => [s.memTotal.toNat, s.memAvailable.toNat, s.memFree.toNat, s.memUsed.toNat,
    s.swapTotal.toNat, s.swapFree.toNat, s.swapUsed.toNat]
  | .internal m => [m.bufferDepth.toNat, m.eventsDroppedTotal.toNat, m.eventsEmittedTotal.toNat]
  | _ => []

def payloadNumbers (keep : ℚ → ℚ) (e : Event) : List (Bytes × ℚ) :=
  (payloadKeys e.eventType).zip (payloadValues keep e)

/-- Rounding to one decimal place, ties to even. -/
def oneDecimal (q : ℚ) : ℚ := roundHalfEven (10 * q) / 10

/-- What stands between the braces of the payload. -/
def payloadText : Event → Bytes
  | .cpu s => cpuPayload s
  | .memory s => memoryPayload s
  | .internal m => internalPayload m
  | _ => []

/-- The whole text of the event. -/
def fullText (st : Stamp) (e : Event) : Bytes := header st e.eventType ++ (payloadText e ++ [125, 125])

theorem json_eq {e : Event} (he : InRange e) (st : Stamp) :
    e.json st = some (snprintf (arraySize e) (fullText st e)) := by
  have hend : ascii "\x7d\x7d" = [125, 125] := rfl
  cases e <;> simp only [InRange] at he <;>
    simp only [Event.json, arraySize, fullText, payloadText, hend, List.append_assoc, List.nil_append]

/-! ## Sizes -/

theorem u64_length (n : UInt64) : (decimal n.toNat).length ≤ 20 :=
  (decimal_length_le_iff (by decide)).mpr (n.toNat_lt.trans_le (by decide))

theorem fmtFixed1_of_nonneg {q : ℚ} (h : 0 ≤ q) : fmtFixed1 q =
    decimal (roundHalfEven (10 * q) / 10) ++ 46 :: decimal (roundHalfEven (10 * q) % 10) :=
  if_neg (not_lt.mpr h)

/-- A percentage has at most three digits in front of the point. -/
theorem fmtFixed1_length {q : ℚ} (h0 : 0 ≤ q) (h : q ≤ 100) : (fmtFixed1 q).length ≤ 5 := by
  have hround : roundHalfEven (10 * q) ≤ 1000 :=
    roundHalfEven_le (by linarith) (by push_cast; linarith)
  have hwhole : (decimal (roundHalfEven (10 * q) / 10)).length ≤ 3 :=
    (decimal_length_le_iff (by decide)).mpr (by omega)
  have htenth : (decimal (roundHalfEven (10 * q) % 10)).length ≤ 1 :=
    (decimal_length_le_iff (by decide)).mpr (by omega)
  rw [fmtFixed1_of_nonneg h0, List.length_append, List.length_cons]
  omega

theorem payload_length {e : Event} (he : InRange e) :
    (payloadText e).length + 490 < arraySize e := by
  have hlit : ∀ s : String, (ascii s).length = s.toList.length := fun s => by simp [ascii]
  cases e <;> simp only [InRange] at he <;> simp only [payloadText, arraySize]
  case warmingUp => simp
  case ready => simp
  case cpu s =>
    obtain ⟨hcores, hpct⟩ := he
    simp only [List.forall_mem_cons] at hpct
    obtain ⟨h₁, h₂, h₃, h₄, _⟩ := hpct
    have hl₁ := fmtFixed1_length h₁.1 h₁.2
    have hl₂ := fmtFixed1_length h₂.1 h₂.2
    have hl₃ := fmtFixed1_length h₃.1 h₃.2
    have hl₄ := fmtFixed1_length h₄.1 h₄.2
    have hl₅ : (decimal s.coreCount).length ≤ 3 :=
      (decimal_length_le_iff (by decide)).mpr (lt_of_le_of_lt hcores (by decide))
    simp only [cpuPayload, List.length_append, hlit]
    simp
    omega
  case memory s =>
    have h₁ := u64_length s.memTotal
    have h₂ := u64_length s.memAvailable
    have h₃ := u64_length s.memFree
    have h₄ := u64_length s.memUsed
    have h₅ := u64_length s.swapTotal
    have h₆ := u64_length s.swapFree
    have h₇ := u64_length s.swapUsed
    simp only [memoryPayload, List.length_append, hlit]
    simp
    omega
  case internal m =>
    have h₁ := u64_length m.bufferDepth
    have h₂ := u64_length m.eventsDroppedTotal
    have h₃ := u64_length m.eventsEmittedTotal
    simp only [internalPayload, List.length_append, hlit]
    simp
    omega

theorem fullText_length {e : Event} (he : InRange e) (st : Stamp) :
    (fullText st e).length < arraySize e := by
  have hh := header_length st e.eventType
  have hp := payload_length he
  simp only [fullText, List.length_append, List.length_cons, List.length_nil]
  omega

/-! ## What the payloads decode to -/

/-- The literals of the payload. -/
def payloadLiterals : Event → List Bytes
  | .cpu s => [fmtFixed1 s.usagePct, fmtFixed1 s.userPct, fmtFixed1 s.systemPct, fmtFixed1 s.idlePct,
    decimal s.coreCount]
  | .memory s => [decimal s.memTotal.toNat, decimal s.memAvailable.toNat, decimal s.memFree.toNat,
    decimal s.memUsed.toNat, decimal s.swapTotal.toNat, decimal s.swapFree.toNat,
    decimal s.swapUsed.toNat]
  | .internal m => [decimal m.bufferDepth.toNat, decimal m.eventsDroppedTotal.toNat,
    decimal m.eventsEmittedTotal.toNat]
  | _ => []

theorem payloadKeys_plain (t : EventType) : ∀ k ∈ payloadKeys t, ∀ b ∈ k, Plain b := by
  cases t <;> decide +kernel

theorem denotes_fmtFixed1 {q : ℚ} (h : 0 ≤ q) : Denotes (fmtFixed1 q) (.num (fmtFixed1 q)) := by
  rw [fmtFixed1_of_nonneg h]
  exact Denotes.fixed _ _

theorem literalValue_fmtFixed1 {q : ℚ} (h : 0 ≤ q) : literalValue (fmtFixed1 q) = oneDecimal q := by
  rw [fmtFixed1_of_nonneg h, literalValue_tenths _ (Nat.mod_lt _ (by decide)), Nat.div_add_mod]
  rfl

theorem payloadLiterals_denote {e : Event} (he : InRange e) :
    ∀ l ∈ payloadLiterals e, Denotes l (.num l) := by
  cases e <;> simp only [InRange] at he <;>
    simp only [payloadLiterals, List.forall_mem_cons, Denotes.decimal, true_and]
  case cpu s =>
    simp only [List.forall_mem_cons] at he
    obtain ⟨_, h₁, h₂, h₃, h₄, _⟩ := he
    exact ⟨denotes_fmtFixed1 h₁.1, denotes_fmtFixed1 h₂.1, denotes_fmtFixed1 h₃.1,
      denotes_fmtFixed1 h₄.1, by simp⟩
  all_goals simp

/-- The literals stand for the numbers, percentages rounded. -/
theorem payloadLiterals_values {e : Event} (he : InRange e) :
    (payloadLiterals e).map literalValue = payloadValues oneDecimal e := by
  cases e <;> simp only [InRange] at he <;>
    simp only [payloadLiterals, payloadValues, List.map_cons, List.map_nil, literalValue_decimal]
  case cpu s =>
    simp only [List.forall_mem_cons] at he
    obtain ⟨_, h₁, h₂, h₃, h₄, _⟩ := he
    rw [literalValue_fmtFixed1 h₁.1, literalValue_fmtFixed1 h₂.1, literalValue_fmtFixed1 h₃.1,
      literalValue_fmtFixed1 h₄.1]

/-- The members of the payload, as the reader takes them. -/
def payloadMembers (e : Event) : List (Bytes × Bytes × Json) :=
  ((payloadKeys e.eventType).zip (payloadLiterals e)).map fun m => (m.1, m.2, .num m.2)

theorem payloadText_eq (e : Event) : payloadText e = membersText (payloadMembers e) := by
  cases e with
  | cpu s => simp [payloadText, cpuPayload, payloadMembers, payloadKeys, payloadLiterals,
      Event.eventType, membersText, member, ascii]
  | memory s => simp [payloadText, memoryPayload, payloadMembers, payloadKeys, payloadLiterals,
      Event.eventType, membersText, member, ascii]
  | internal m => simp [payloadText, internalPayload, payloadMembers, payloadKeys,
      payloadLiterals, Event.eventType, membersText, member, ascii]
  | warmingUp => rfl
  | ready => rfl
  | disk s => rfl
  | network s => rfl

theorem payload_denotes {e : Event} (he : InRange e) : Denotes (123 :: (payloadText e ++ [125]))
    (.obj ((payloadMembers e).map fun m => (m.1, m.2.2))) := by
  rw [payloadText_eq]
  by_cases hnil : payloadMembers e = []
  · rw [hnil]
    exact Denotes.emptyObj
  · refine Denotes.obj _ hnil fun m hm => ?_
    obtain ⟨p, hp, rfl⟩ := List.mem_map.mp hm
    have hmem := List.of_mem_zip (a := p.1) (b := p.2) hp
    exact ⟨payloadKeys_plain _ _ hmem.1, payloadLiterals_denote he _ hmem.2⟩

/-! ## The contract -/

/-- The numbers of an object, under their keys. -/
def numbersOf : Json → Option (List (Bytes × Option ℚ))
  | .obj ms => some (ms.map fun m => (m.1, m.2.num?))
  | _ => none

/-- The eight required fields of an event, and the numbers in its payload. -/
structure Contract (st : Stamp) (t : EventType) (host : Bytes) (numbers : List (Bytes × ℚ))
    (v : Json) : Prop where
  schemaVersion : v.get? (ascii "schema_version") = some (.str (ascii "1.0"))
  timestamp : v.get? (ascii "timestamp") = some (.str st.timestamp.bytes)
  source : v.get? (ascii "source") = some (.str (ascii "syswatch"))
  sourceVersion : v.get? (ascii "source_version") = some (.str SYSWATCH_VERSION)
  host : v.get? (ascii "host") = some (.str host)
  eventType : v.get? (ascii "event_type") = some (.str t.name)
  severity : v.get? (ascii "severity") = some (.str (ascii "info"))
  payload : (v.get? (ascii "payload")).bind numbersOf = some (numbers.map fun n => (n.1, some n.2))

theorem eventJson_contract (st : Stamp) (t : EventType) (host : Bytes) {p : Json}
    {numbers : List (Bytes × ℚ)}
    (hp : numbersOf p = some (numbers.map fun n => (n.1, some n.2))) :
    Contract st t host numbers (eventJson st t host p) where
  schemaVersion := rfl
  timestamp := rfl
  source := rfl
  sourceVersion := rfl
  host := rfl
  eventType := rfl
  severity := rfl
  payload := by
    rw [eventJson, get_payload]
    exact hp

theorem payload_numbers {e : Event} (he : InRange e) :
    numbersOf (.obj ((payloadMembers e).map fun m => (m.1, m.2.2))) =
      some ((payloadNumbers oneDecimal e).map fun n => (n.1, some n.2)) := by
  rw [numbersOf, payloadNumbers, ← payloadLiterals_values he, payloadMembers, List.zip_map_right]
  simp only [List.map_map]
  rfl

theorem decimal_ascii (n : Nat) : ∀ b ∈ decimal n, 32 ≤ b ∧ b < 0x80 := by
  intro b hb
  have hdigit := isDigit_of_mem_decimal hb
  simp only [isDigit, Bool.and_eq_true, decide_eq_true_eq] at hdigit
  exact ⟨UInt8.le_trans (by decide) hdigit.1, UInt8.lt_of_le_of_lt hdigit.2 (by decide)⟩

theorem payloadKeys_ascii (t : EventType) : ∀ k ∈ payloadKeys t, ∀ b ∈ k, 32 ≤ b ∧ b < 0x80 := by
  cases t <;> decide +kernel

theorem fmtFixed1_printable {q : ℚ} (h : 0 ≤ q) : ∀ b ∈ fmtFixed1 q, 32 ≤ b ∧ b < 0x80 := by
  rw [fmtFixed1_of_nonneg h, List.forall_mem_append, List.forall_mem_cons]
  exact ⟨decimal_ascii _, by decide, decimal_ascii _⟩

theorem payloadLiterals_printable {e : Event} (he : InRange e) :
    ∀ l ∈ payloadLiterals e, ∀ b ∈ l, 32 ≤ b ∧ b < 0x80 := by
  cases e <;> simp only [InRange] at he <;> simp only [payloadLiterals]
  case cpu s =>
    simp only [List.forall_mem_cons] at he ⊢
    obtain ⟨_, h₁, h₂, h₃, h₄, _⟩ := he
    exact ⟨fmtFixed1_printable h₁.1, fmtFixed1_printable h₂.1, fmtFixed1_printable h₃.1,
      fmtFixed1_printable h₄.1, decimal_ascii _, by simp⟩
  case memory s =>
    simp only [List.forall_mem_cons]
    exact ⟨decimal_ascii _, decimal_ascii _, decimal_ascii _, decimal_ascii _,
      decimal_ascii _, decimal_ascii _, decimal_ascii _, by simp⟩
  case internal m =>
    simp only [List.forall_mem_cons]
    exact ⟨decimal_ascii _, decimal_ascii _, decimal_ascii _, by simp⟩
  all_goals simp

theorem payloadText_printable {e : Event} (he : InRange e) : ∀ b ∈ payloadText e, 32 ≤ b ∧ b < 0x80 := by
  rw [payloadText_eq]
  refine membersText_forall (by decide) (by decide) (by decide) fun m hm => ?_
  obtain ⟨p, hp, rfl⟩ := List.mem_map.mp hm
  have hmem := List.of_mem_zip (a := p.1) (b := p.2) hp
  exact ⟨payloadKeys_ascii _ _ hmem.1, payloadLiterals_printable he _ hmem.2⟩

/-- **The events of fixed shape keep the contract.** Whatever their fields
hold, the text is whole, on one line, taken by the queue, and decodes to an
object with the required fields, under the host name or the start of it, and
the numbers given, percentages rounded to one decimal place. -/
theorem fixed_event_contract {e : Event} (he : InRange e) {st : Stamp} {name : Bytes}
    (hhost : st.host.bytes = jsonEscapeString (some name) 256)
    (hts : ∀ b ∈ st.timestamp.bytes, Plain b) :
    ∃ text host v, e.json st = some text ∧ text = fullText st e ∧ text.length < arraySize e ∧
      (10 : UInt8) ∉ text ∧ Accepted text ∧ parse text = some v ∧ host <+: cstr name ∧
      Contract st e.eventType host (payloadNumbers oneDecimal e) v := by
  have hlen := fullText_length he st
  obtain ⟨host, hpre, hdec⟩ := jsonEscapeString_decodes name (show 0 < 256 by decide)
  rw [← hhost] at hdec
  have hprint : ∀ b ∈ st.host.bytes, 32 ≤ b := by
    rw [hhost]
    exact (jsonEscapeString_spec _ (by decide)).2.1
  have hjson : e.json st = some (fullText st e) := by rw [json_eq he st, snprintf_fits hlen]
  refine ⟨_, host, _, hjson, rfl, hlen, ?_, (accepted_iff _).mpr (Event.json_length hjson),
    parse_payload ⟨hts, hdec⟩ e.eventType (payload_denotes he), hpre,
    eventJson_contract st _ host (payload_numbers he)⟩
  intro h10
  rw [fullText, List.mem_append, List.mem_append] at h10
  rcases h10 with h10 | h10 | h10
  · exact absurd (header_printable (fun b hb => (hts b hb).1) hprint _ 10 h10) (by decide)
  · exact absurd (payloadText_printable he 10 h10).1 (by decide)
  · exact absurd h10 (by decide)

def sampleStamp (name : Bytes) : Stamp where
  timestamp := CString.ofBytes 64 (ascii "2026-04-28T14:23:01.234+02:00")
  host := ⟨jsonEscapeString (some name) 256,
    fun h => absurd ((jsonEscapeString_spec _ (by decide)).2.1 0 h) (by decide),
    (jsonEscapeString_spec _ (by decide)).2.2⟩

def sampleCpu : CpuStats := ⟨49 / 4, 7, 21 / 4, 351 / 4, 8, []⟩

theorem fixed_event_contract_example :
    ∃ text host v, (Event.cpu sampleCpu).json (sampleStamp (ascii "my\"host")) = some text ∧
      text = fullText (sampleStamp (ascii "my\"host")) (.cpu sampleCpu) ∧ text.length < 1024 ∧
      (10 : UInt8) ∉ text ∧ Accepted text ∧ parse text = some v ∧ host <+: cstr (ascii "my\"host") ∧
      Contract (sampleStamp (ascii "my\"host")) .cpu host
        (payloadNumbers oneDecimal (.cpu sampleCpu)) v :=
  @fixed_event_contract (.cpu sampleCpu) ⟨by decide, by decide +kernel⟩ _ (ascii "my\"host") rfl
    (by decide +kernel)

/-- A usage of 12.25 percent is reported as 12.2. -/
theorem percentage_rounded : InRange (.cpu sampleCpu) ∧
    (∀ b ∈ (sampleStamp (ascii "myhost")).timestamp.bytes, Plain b) ∧
    ∃ text, (Event.cpu sampleCpu).json (sampleStamp (ascii "myhost")) = some text ∧
      ∀ host v, parse text = some v →
        ¬Contract (sampleStamp (ascii "myhost")) .cpu host (payloadNumbers id (.cpu sampleCpu)) v := by
  refine ⟨⟨by decide, by decide +kernel⟩, by decide +kernel, _,
    Option.eq_some_of_isSome (by decide +kernel), ?_⟩
  intro host v hv hc
  have hread : ((parse ((Event.cpu sampleCpu).json (sampleStamp (ascii "myhost")) |>.get
      (by decide +kernel))).bind fun v => (v.get? (ascii "payload")).bind numbersOf) ≠
        some ((payloadNumbers id (.cpu sampleCpu)).map fun n => (n.1, some n.2)) := by
    decide +kernel
  rw [hv] at hread
  exact hread hc.payload

end Syswatch.FixedEvents
