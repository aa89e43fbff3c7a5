import Syswatch.EscapeMemory
import Syswatch.FixedEvents
import Syswatch.Lib.JsonUtf8

/-! # UTF-8 through `json_escape_string`

A character of several bytes is copied byte by byte, and the copy may end
between two of them. -/

namespace Syswatch.EscapeUtf8
open Lib CText JsonText Unicode EscapeMemory

/-- The bytes that some characters are escaped to. -/
def escapedText (text : Text) : Bytes := (text.flatMap utf8).flatMap escaped

/-- Some character begins within `room` bytes of escaped text and ends behind them. -/
def CutInside (s : Bytes) (room : Nat) : Prop :=
  ∃ before c after, (∀ n ∈ before, n.isValidChar) ∧ c.isValidChar ∧
    s = before.flatMap utf8 ++ (utf8 c ++ after) ∧
    (escapedText before).length < room ∧ room < (escapedText before).length + (utf8 c).length

theorem escaped_high {b : UInt8} (h : 0x80 ≤ b) : escaped b = [b] := by
  have hne {c : UInt8} (hc : c < 0x80) : b ≠ c := by
    rintro rfl
    exact absurd hc (UInt8.not_lt.mpr h)
  have h32 : ¬b < 32 := UInt8.not_lt.mpr (UInt8.le_trans (by decide) h)
  simp only [escaped, escapeOf, if_neg (hne (show (34 : UInt8) < 0x80 by decide)),
    if_neg (hne (show (92 : UInt8) < 0x80 by decide)), if_neg (hne (show (8 : UInt8) < 0x80 by decide)),
    if_neg (hne (show (12 : UInt8) < 0x80 by decide)), if_neg (hne (show (10 : UInt8) < 0x80 by decide)),
    if_neg (hne (show (13 : UInt8) < 0x80 by decide)), if_neg (hne (show (9 : UInt8) < 0x80 by decide)),
    if_neg h32, Option.getD_none]

theorem escaped_flatMap_high {s : Bytes} (h : ∀ b ∈ s, 0x80 ≤ b) : s.flatMap escaped = s :=
  calc s.flatMap escaped = s.flatMap fun b => [b] := List.flatMap_congr fun b hb => escaped_high (h b hb)
    _ = s := List.flatMap_singleton' s

theorem escaped_ascii : ∀ n : Fin 128, ∀ b ∈ escaped n.val.toUInt8, b < 0x80 := by
  decide +kernel

/-- Whole characters stay whole. -/
theorem encodes_escapedText {ok : Nat → Prop} (hascii : ∀ n < 0x80, ok n) {text : Text}
    (hok : ∀ n ∈ text, ok n) (hlt : Encodable text) : Encodes ok (escapedText text) := by
  induction text with
  | nil => exact ⟨[], by simp, rfl⟩
  | cons n text ih =>
    have hrest := ih (fun m hm => hok m (List.mem_cons_of_mem _ hm)) fun m hm =>
      hlt m (List.mem_cons_of_mem _ hm)
    have hfirst : Encodes ok ((utf8 n).flatMap escaped) := by
      by_cases hn : n < 0x80
      · rw [utf8_ascii hn, List.flatMap_singleton]
        exact encodes_ascii hascii (escaped_ascii ⟨n, hn⟩)
      · rw [escaped_flatMap_high (utf8_high (Nat.le_of_not_lt hn) (hlt n List.mem_cons_self))]
        exact ⟨[n], by simpa using hok n List.mem_cons_self, by simp⟩
    rw [escapedText, List.flatMap_cons, List.flatMap_append]
    exact hfirst.append hrest

/-- The bytes of a character of several bytes are written as they are. -/
theorem escaped_part {c : Nat} (hc : c.isValidChar) {q more : Bytes} (h : utf8 c = q ++ more) (hq : q ≠ [])
    (hmore : more ≠ []) : q.flatMap escaped = q ∧ (utf8 c).flatMap escaped = utf8 c := by
  have hhigh : ∀ b ∈ utf8 c, 0x80 ≤ b := by
    refine utf8_high (Nat.le_of_not_lt fun hlt => ?_) (isValidChar_lt hc)
    rw [utf8_ascii hlt] at h
    have hlen := congrArg List.length h
    have := List.length_pos_iff.mpr hq
    have := List.length_pos_iff.mpr hmore
    rw [List.length_append, List.length_singleton] at hlen
    omega
  refine ⟨escaped_flatMap_high fun b hb => hhigh b ?_, escaped_flatMap_high hhigh⟩
  rw [h]
  exact List.mem_append_left _ hb

theorem escapedText_append (before : Text) (q : Bytes) :
    ((before.flatMap utf8 ++ q).flatMap escaped) = escapedText before ++ q.flatMap escaped :=
  List.flatMap_append

/-- What is kept ends between two characters, or a character lies across the limit. -/
theorem whole_or_cut {s p : Bytes} {room : Nat} (hp : LongestEscaped s room p) (hs : WellFormed s) :
    (∃ before : Text, (∀ n ∈ before, n.isValidChar) ∧ p = before.flatMap utf8) ∨ CutInside s room := by
  obtain ⟨text, htext, rfl⟩ := hs
  rcases prefix_split hp.isPrefix with ⟨before, rest, rfl, rfl⟩ | ⟨before, c, rest, q, more, rfl, rfl, hc, hq, hmore⟩
  · exact .inl ⟨before, fun n hn => htext n (List.mem_append_left _ hn), rfl⟩
  · have hvalid : c.isValidChar := htext c (by simp)
    obtain ⟨hpart, hwhole⟩ := escaped_part hvalid hc hq hmore
    have hfits := hp.fits
    have hpos := List.length_pos_iff.mpr hq
    rw [escapedText_append, List.length_append, hpart] at hfits
    refine .inr ⟨before, c, rest.flatMap utf8, fun n hn => htext n (List.mem_append_left _ hn), hvalid,
      by simp, by omega, ?_⟩
    by_contra hroom
    -- the whole character would have been kept
    have hlonger := hp.longest (before.flatMap utf8 ++ utf8 c) ⟨rest.flatMap utf8, by simp⟩ (by
      rw [escapedText_append, List.length_append, hwhole]
      omega)
    rw [List.prefix_append_right_inj, hc] at hlonger
    have hlen := hlonger.length_le
    have := List.length_pos_iff.mpr hmore
    rw [List.length_append] at hlen
    omega

/-- If one does, only a part of it is kept. -/
theorem part_of_cut {s p : Bytes} {room : Nat} (hp : LongestEscaped s room p) (h : CutInside s room) :
    ∃ (before : Text) (c : Nat) (q more : Bytes), (∀ n ∈ before, n.isValidChar) ∧ c.isValidChar ∧
      p.flatMap escaped = escapedText before ++ q ∧ utf8 c = q ++ more ∧ q ≠ [] ∧ more ≠ [] := by
  obtain ⟨before, c, after, hbefore, hc, rfl, hstart, hend⟩ := h
  have hsplit := List.take_append_drop (room - (escapedText before).length) (utf8 c)
  generalize hq : (utf8 c).take (room - (escapedText before).length) = q at hsplit
  generalize hmore : (utf8 c).drop (room - (escapedText before).length) = more at hsplit
  have hqlen : q.length = room - (escapedText before).length := by
    rw [← hq, List.length_take]
    omega
  have hmorelen : more.length = (utf8 c).length - (room - (escapedText before).length) := by
    rw [← hmore, List.length_drop]
  have hqne : q ≠ [] := by
    rw [← List.length_pos_iff]
    omega
  have hmorene : more ≠ [] := by
    rw [← List.length_pos_iff]
    omega
  obtain ⟨hpart, -⟩ := escaped_part hc hsplit.symm hqne hmorene
  have hescaped : (before.flatMap utf8 ++ q).flatMap escaped = escapedText before ++ q := by
    rw [escapedText_append, hpart]
  -- the part fills the room, so that nothing more is kept
  obtain ⟨extra, rfl⟩ := hp.longest (before.flatMap utf8 ++ q)
    ⟨more ++ after, by rw [← hsplit]; simp⟩ (by rw [hescaped, List.length_append]; omega)
  have hnone : extra.flatMap escaped = [] := by
    have hfits := hp.fits
    rw [List.flatMap_append, hescaped, List.length_append, List.length_append] at hfits
    exact List.length_eq_zero_iff.mp (by omega)
  exact ⟨before, c, q, more, hbefore, hc, by rw [List.flatMap_append, hescaped, hnone, List.append_nil],
    hsplit.symm, hqne, hmorene⟩

/-- What is left of a text encodes characters just if no character is cut. -/
theorem encodes_escape_iff {ok : Nat → Prop} (hvalid : ∀ n, n.isValidChar → ok n)
    (hlt : ∀ n, ok n → n < 0x110000) {s : Bytes} (h0 : (0 : UInt8) ∉ s) (hs : WellFormed s) {n : Nat}
    (hn : 0 < n) : Encodes ok (jsonEscapeString (some s) n) ↔ ¬CutInside s (n - 1) := by
  have hascii : ∀ n < 0x80, ok n := fun n h => hvalid n (.inl (by omega))
  obtain ⟨p, hescape, hp⟩ := longestEscaped_loop s hn
  rw [cstr_of_noNul h0] at hp
  rw [hescape]
  constructor
  · intro hencodes hcut
    obtain ⟨before, c, q, more, hbefore, hc, heq, hsplit, hq, hmore⟩ := part_of_cut hp hcut
    rw [heq] at hencodes
    have hfirst := encodes_escapedText hascii (fun n hn => hvalid n (hbefore n hn)) fun n hn =>
      isValidChar_lt (hbefore n hn)
    exact not_encodes_part hlt (isValidChar_lt hc) hsplit hq hmore (Encodes.of_append hlt hfirst hencodes)
  · intro hcut
    obtain ⟨before, hbefore, rfl⟩ := (whole_or_cut hp hs).resolve_right hcut
    exact encodes_escapedText hascii (fun n hn => hvalid n (hbefore n hn)) fun n hn =>
      isValidChar_lt (hbefore n hn)

/-! ## The events under such a host -/

/-- An event is UTF-8 if its host is: the rest of it is ASCII. -/
theorem encodes_event_iff {ok : Nat → Prop} (hascii : ∀ n < 0x80, ok n) (hlt : ∀ n, ok n → n < 0x110000)
    {e : Event} (he : FixedEvents.InRange e) {st : Stamp} (hts : ∀ b ∈ st.timestamp.bytes, b < 0x80) :
    Encodes ok (FixedEvents.fullText st e) ↔ Encodes ok st.host.bytes := by
  have htype : ∀ b ∈ e.eventType.name, b < 0x80 := by
    generalize e.eventType = t
    cases t <;> decide
  have hpayload : ∀ b ∈ FixedEvents.payloadText e, b < 0x80 := fun b hb =>
    (FixedEvents.payloadText_printable he b hb).2
  obtain ⟨before, after, hsplit, hbefore, hafter⟩ : ∃ before after,
      FixedEvents.fullText st e = before ++ (st.host.bytes ++ 34 :: after) ∧
        (∀ b ∈ before, b < 0x80) ∧ ∀ b ∈ after, b < 0x80 := by
    refine ⟨ascii "\x7b\"schema_version\":\"1.0\",\"timestamp\":\"" ++ st.timestamp.bytes ++
        ascii "\",\"host\":\"",
      ascii ",\"source\":\"syswatch\",\"source_version\":\"" ++ SYSWATCH_VERSION ++
        ascii "\",\"event_type\":\"" ++ e.eventType.name ++
        ascii "\",\"severity\":\"info\",\"payload\":\x7b" ++ (FixedEvents.payloadText e ++ [125, 125]),
      ?_, ?_, ?_⟩
    · have hquote : ascii "\",\"source\":\"syswatch\",\"source_version\":\"" =
          34 :: ascii ",\"source\":\"syswatch\",\"source_version\":\"" := rfl
      simp only [FixedEvents.fullText, header, hquote, List.append_assoc, List.cons_append]
    · simp only [List.forall_mem_append]
      exact ⟨⟨by decide, hts⟩, by decide⟩
    · simp only [List.forall_mem_append]
      exact ⟨⟨⟨⟨⟨by decide, by decide⟩, by decide⟩, htype⟩, by decide⟩, hpayload, by decide⟩
  have hfirst : Encodes ok before := encodes_ascii hascii hbefore
  have hlast : Encodes ok (34 :: after) := encodes_ascii hascii (by simpa using hafter)
  rw [hsplit]
  exact ⟨fun h => Encodes.of_append_ascii hlt (by decide) (Encodes.of_append hlt hfirst h),
    fun h => hfirst.append (h.append hlast)⟩

theorem event_loads_iff {e : Event} (he : FixedEvents.InRange e) {st : Stamp} {host : Bytes}
    (hst : EventJson.Readable st host) (hprint : ∀ b ∈ st.host.bytes, 32 ≤ b)
    (hts : ∀ b ∈ st.timestamp.bytes, b < 0x80) :
    (∃ ms, PyJson.loads (FixedEvents.fullText st e) = .value (.dict ms)) ↔
      Encodes (· < 0x110000) st.host.bytes := by
  rw [← encodes_event_iff (fun n h => by omega) (fun n h => h) he hts, ← utf8Decode_isSome]
  have hparse : parse (FixedEvents.fullText st e) = some _ :=
    EventJson.parse_payload hst e.eventType (FixedEvents.payload_denotes he)
  have h0 : (0 : UInt8) ∉ FixedEvents.fullText st e := by
    intro h0
    rw [FixedEvents.fullText, List.mem_append, List.mem_append] at h0
    rcases h0 with h0 | h0 | h0
    · exact absurd (EventJson.header_printable (fun b hb => (hst.timestamp b hb).1) hprint _ 0 h0)
        (by decide)
    · exact absurd (FixedEvents.payloadText_printable he 0 h0).1 (by decide)
    · exact absurd h0 (by decide)
  have hfirst : ∀ a ∈ (FixedEvents.fullText st e).head?, a < 0x80 := by
    rintro a ⟨⟩
    decide
  rcases JsonUtf8.loads_of_parse h0 hfirst hparse with ⟨hutf8, hloads⟩ | ⟨hutf8, v, hloads, hkind⟩
  · refine iff_of_false ?_ (by simp [hutf8])
    rintro ⟨ms, hms⟩
    rw [hms] at hloads
    cases hloads
  · obtain ⟨ms, rfl⟩ := hkind rfl
    exact iff_of_true ⟨ms, hloads⟩ hutf8

/-- **UTF-8 stays UTF-8** unless the limit falls inside a character, and so does
an event under that host, which is then one object for a reader of UTF-8. -/
theorem json_escape_string_utf8_iff {s : Bytes} (h0 : (0 : UInt8) ∉ s) (hs : WellFormed s) :
    (∀ n, 0 < n → (WellFormed (jsonEscapeString (some s) n) ↔ ¬CutInside s (n - 1))) ∧
    ∀ e st, FixedEvents.InRange e → (∀ b ∈ st.timestamp.bytes, Plain b ∧ b < 0x80) →
      st.host.bytes = jsonEscapeString (some s) 256 →
      ∃ text, e.json st = some text ∧
        ((∃ ms, PyJson.loads text = .value (.dict ms)) ↔ ¬CutInside s (256 - 1)) := by
  refine ⟨fun n hn => encodes_escape_iff (fun _ h => h) (fun _ => isValidChar_lt) h0 hs hn,
    fun e st he hts hhost => ?_⟩
  have hjson : e.json st = some (FixedEvents.fullText st e) := by
    rw [FixedEvents.json_eq he st, snprintf_fits (FixedEvents.fullText_length he st)]
  obtain ⟨host, -, hread⟩ := jsonEscapeString_decodes s (show 0 < 256 by decide)
  have hprint := (jsonEscapeString_spec (some s) (show 0 < 256 by decide)).2.1
  rw [← hhost] at hread hprint
  refine ⟨_, hjson, ?_⟩
  rw [event_loads_iff he ⟨fun b hb => (hts b hb).1, hread⟩ hprint fun b hb => (hts b hb).2, hhost]
  exact encodes_escape_iff (fun _ => isValidChar_lt) (fun _ h => h) h0 hs (by decide)

/-- `é` -/
def acute : Bytes := [0xC3, 0xA9]

theorem acute_wellFormed : WellFormed acute := ⟨[0xE9], by decide, by decide⟩

theorem json_escape_string_utf8_iff_example :
    (WellFormed (jsonEscapeString (some acute) 3) ↔ ¬CutInside acute (3 - 1)) ∧
      ∃ text, Event.ready.json (FixedEvents.sampleStamp acute) = some text ∧
        ((∃ ms, PyJson.loads text = .value (.dict ms)) ↔ ¬CutInside acute (256 - 1)) := by
  obtain ⟨houtput, hevent⟩ := json_escape_string_utf8_iff (by decide) acute_wellFormed
  exact ⟨houtput 3 (by decide), hevent .ready (FixedEvents.sampleStamp acute) trivial (by decide +kernel) rfl⟩

/-- A host name whose second `é` lies across the limit of 255 bytes. -/
def longHost : Bytes := List.replicate 42 1 ++ (acute ++ acute)

theorem longHost_cut : CutInside longHost (256 - 1) :=
  ⟨List.replicate 42 1 ++ [0xE9], 0xE9, [], by decide +kernel, by decide, by decide +kernel,
    by decide +kernel, by decide +kernel⟩

/-- One byte of the last character is left in front of the terminator. -/
theorem acute_cut :
    (WellFormed acute ∧ ¬WellFormed (jsonEscapeString (some acute) 2)) ∧
      WellFormed longHost ∧ ¬WellFormed (jsonEscapeString (some longHost) 256) := by
  have hlong : WellFormed longHost :=
    ⟨List.replicate 42 1 ++ [0xE9, 0xE9], by decide +kernel, by decide +kernel⟩
  refine ⟨⟨acute_wellFormed, ?_⟩, hlong, fun h => ?_⟩
  · have hpart : jsonEscapeString (some acute) 2 = [0xC3] := by decide
    rw [hpart]
    exact not_encodes_part (fun _ => isValidChar_lt) (show 0xE9 < 0x110000 by decide)
      (show utf8 0xE9 = [0xC3] ++ [0xA9] by decide) (by decide) (by decide)
  · exact (encodes_escape_iff (fun _ h => h) (fun _ => isValidChar_lt) (by decide +kernel) hlong
      (by decide)).mp h longHost_cut

end Syswatch.EscapeUtf8
