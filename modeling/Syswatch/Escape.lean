import Syswatch.Types
import Syswatch.Lib.JsonText

/-! # JSON escaping of the host name (`output.c`, `main.c`) -/

namespace Syswatch
open Lib.CText Lib.JsonText

/-- One digit of `%04x`. -/
def hexDigit (n : UInt8) : UInt8 := if n < 10 then 48 + n else 87 + n

/-- The replacement of a byte, if it has one. -/
def escapeOf (c : UInt8) : Option Bytes :=
  if c = 34 then some [92, 34]
  else if c = 92 then some [92, 92]
  else if c = 8 then some [92, 98]
  else if c = 12 then some [92, 102]
  else if c = 10 then some [92, 110]
  else if c = 13 then some [92, 114]
  else if c = 9 then some [92, 116]
  else if c < 32 then some [92, 117, 48, 48, hexDigit (c / 16), hexDigit (c % 16)]
  else none

/-- The loop of `json_escape_string`: it stops at the first byte whose text
does not fit in front of the terminator. -/
def escapeLoop (outputSize : Nat) : Bytes → Bytes → Bytes
  | written, [] => written
  | written, c :: cursor =>
    if written.length + 1 < outputSize then
      match escapeOf c with
      | some replacement =>
        if written.length + replacement.length ≥ outputSize then written
        else escapeLoop outputSize (written ++ replacement) cursor
      | none => escapeLoop outputSize (written ++ [c]) cursor
    else written

/-- `json_escape_string(input, output, output_size)`: the string left in `output`. -/
def jsonEscapeString (input : Option Bytes) (outputSize : Nat) : Bytes :=
  match input with
  | none => []
  | some s => escapeLoop outputSize [] (cstr s)

/-! ## What the output is -/

theorem plain_of_escapeOf {c : UInt8} (h : escapeOf c = none) : Plain c := by
  unfold escapeOf at h
  split_ifs at h with h34 h92 h8 h12 h10 h13 h9 h32
  exact ⟨UInt8.not_lt.mp h32, h34, h92⟩

theorem hexDigit_reads : ∀ n : Fin 32,
    hexVal (hexDigit (n.val.toUInt8 / 16)) = some (n.val / 16) ∧
    hexVal (hexDigit (n.val.toUInt8 % 16)) = some (n.val % 16) ∧
    utf8 n.val = [n.val.toUInt8] := by
  decide +kernel

theorem controlEscape_reads {c : UInt8} (h : c < 32) (rest : Bytes) :
    escape ([117, 48, 48, hexDigit (c / 16), hexDigit (c % 16)] ++ rest) = some ([c], rest) := by
  have hdigits := hexDigit_reads ⟨c.toNat, h⟩
  have hc : c.toNat.toUInt8 = c := UInt8.ofNat_toNat
  have hn : 4096 * 0 + 256 * 0 + 16 * (c.toNat / 16) + c.toNat % 16 = c.toNat := by omega
  have hlt : c.toNat < 256 := UInt8.toNat_lt c
  simp only [hc] at hdigits
  obtain ⟨hh, hl, hu⟩ := hdigits
  have h4 : hex4 ([48, 48, hexDigit (c / 16), hexDigit (c % 16)] ++ rest) = some (c.toNat, rest) := by
    simp only [List.cons_append, List.nil_append, hex4, hh, hl, show hexVal 48 = some 0 from rfl,
      Option.bind_eq_bind, Option.bind_some, hn]
  have hsurrogate : ¬(0xD800 ≤ c.toNat ∧ c.toNat < 0xDC00) := by omega
  change unicodeEscape ([48, 48, hexDigit (c / 16), hexDigit (c % 16)] ++ rest) = some ([c], rest)
  simp only [unicodeEscape, h4, Option.map_some, if_neg hsurrogate, hu]

/-- A replacement is a backslash and an escape that is read as the byte. -/
theorem escapeOf_reads {c : UInt8} {r : Bytes} (h : escapeOf c = some r) :
    ∃ used, r = 92 :: used ∧ ∀ rest, escape (used ++ rest) = some ([c], rest) := by
  unfold escapeOf at h
  split_ifs at h with h34 h92 h8 h12 h10 h13 h9 h32 <;> rw [Option.some.injEq] at h <;> subst h
  · exact ⟨_, rfl, fun rest => by subst h34; rfl⟩
  · exact ⟨_, rfl, fun rest => by subst h92; rfl⟩
  · exact ⟨_, rfl, fun rest => by subst h8; rfl⟩
  · exact ⟨_, rfl, fun rest => by subst h12; rfl⟩
  · exact ⟨_, rfl, fun rest => by subst h10; rfl⟩
  · exact ⟨_, rfl, fun rest => by subst h13; rfl⟩
  · exact ⟨_, rfl, fun rest => by subst h9; rfl⟩
  · exact ⟨_, rfl, controlEscape_reads h32⟩

theorem escapeOf_printable : ∀ n : Fin 256, ∀ b ∈ (escapeOf n.val.toUInt8).getD [], 32 ≤ b := by
  decide +kernel

/-- The text a byte is written as. -/
def escaped (c : UInt8) : Bytes := (escapeOf c).getD [c]

theorem escaped_printable (c : UInt8) : ∀ b ∈ escaped c, 32 ≤ b := by
  have hc : c.toNat.toUInt8 = c := UInt8.ofNat_toNat
  have := escapeOf_printable ⟨c.toNat, c.toNat_lt⟩
  simp only [hc] at this
  unfold escaped
  cases h : escapeOf c with
  | none =>
    intro b hb
    rw [Option.getD_none, List.mem_singleton] at hb
    exact hb ▸ (plain_of_escapeOf h).1
  | some r => rwa [h] at this

/-- The escaped text of a string decodes to it. -/
theorem escaped_decodes (s : Bytes) : StringText (s.flatMap escaped) s := by
  induction s with
  | nil => exact StringText.nil
  | cons c s ih =>
    rw [List.flatMap_cons, escaped]
    cases h : escapeOf c with
    | none => exact ih.plain (plain_of_escapeOf h)
    | some r =>
      obtain ⟨used, rfl, hu⟩ := escapeOf_reads h
      simpa using ih.escaped hu

theorem escaped_ne_nil (c : UInt8) : escaped c ≠ [] := by
  unfold escaped
  cases h : escapeOf c with
  | none => simp
  | some r =>
    obtain ⟨used, rfl, -⟩ := escapeOf_reads h
    simp

/-- The loop writes whole escaped bytes until the next one does not fit. -/
theorem escapeLoop_stops {n : Nat} (cursor : Bytes) {written : Bytes} (h : written.length < n) :
    ∃ p rest, cursor = p ++ rest ∧ escapeLoop n written cursor = written ++ p.flatMap escaped ∧
      (written ++ p.flatMap escaped).length < n ∧
      ∀ c ∈ rest.head?, n ≤ (written ++ p.flatMap escaped).length + (escaped c).length := by
  induction cursor generalizing written with
  | nil => exact ⟨[], [], rfl, by simp [escapeLoop], by simpa using h, by simp⟩
  | cons c cursor ih =>
    have hstop : n ≤ written.length + (escaped c).length → ∃ p rest, c :: cursor = p ++ rest ∧
        written = written ++ p.flatMap escaped ∧ (written ++ p.flatMap escaped).length < n ∧
          ∀ c ∈ rest.head?, n ≤ (written ++ p.flatMap escaped).length + (escaped c).length :=
      fun hfull => ⟨[], c :: cursor, rfl, by simp, by simpa using h, by simpa using hfull⟩
    have hgo : (written ++ escaped c).length < n → ∃ p rest, c :: cursor = p ++ rest ∧
        escapeLoop n (written ++ escaped c) cursor = written ++ p.flatMap escaped ∧
          (written ++ p.flatMap escaped).length < n ∧
            ∀ c ∈ rest.head?, n ≤ (written ++ p.flatMap escaped).length + (escaped c).length := by
      intro hroom
      obtain ⟨p, rest, rfl, he, hl, hnext⟩ := ih hroom
      rw [List.append_assoc] at he hl hnext
      exact ⟨c :: p, rest, rfl, he, hl, hnext⟩
    have hpos : 0 < (escaped c).length := List.length_pos_iff.mpr (escaped_ne_nil c)
    rw [escapeLoop]
    split
    · next hroom =>
      cases hc : escapeOf c with
      | none =>
        have he : escaped c = [c] := by rw [escaped, hc, Option.getD_none]
        rw [he] at hgo
        exact hgo (by rwa [List.length_append])
      | some r =>
        have he : escaped c = r := by rw [escaped, hc, Option.getD_some]
        rw [he] at hgo hstop
        by_cases hfull : written.length + r.length ≥ n
        · simp only [if_pos hfull]
          exact hstop hfull
        · simp only [if_neg hfull]
          exact hgo (by rw [List.length_append]; omega)
    · next hroom => exact hstop (by omega)

theorem escapeLoop_spec {n : Nat} (cursor : Bytes) {written : Bytes} (h : written.length < n) :
    ∃ p, p <+: cursor ∧ escapeLoop n written cursor = written ++ p.flatMap escaped ∧
      (escapeLoop n written cursor).length < n := by
  obtain ⟨p, rest, rfl, he, hl, -⟩ := escapeLoop_stops cursor h
  exact ⟨p, List.prefix_append p rest, he, he ▸ hl⟩

/-- **`json_escape_string`** leaves the inside of a JSON string that decodes to
a prefix of its input, without control characters, and fits. -/
theorem jsonEscapeString_spec (input : Option Bytes) {n : Nat} (hn : 0 < n) :
    (∃ decoded, StringText (jsonEscapeString input n) decoded) ∧
      (∀ b ∈ jsonEscapeString input n, 32 ≤ b) ∧ (jsonEscapeString input n).length < n := by
  cases input with
  | none => exact ⟨⟨[], StringText.nil⟩, by simp [jsonEscapeString], hn⟩
  | some s =>
    obtain ⟨p, _, he, hl⟩ := escapeLoop_spec (cstr s) (show ([] : Bytes).length < n from hn)
    rw [List.nil_append] at he
    refine ⟨⟨p, ?_⟩, fun b hb => ?_, hl⟩
    · rw [jsonEscapeString, he]
      exact escaped_decodes p
    · rw [jsonEscapeString, he] at hb
      obtain ⟨c, _, hbc⟩ := List.mem_flatMap.mp hb
      exact escaped_printable c b hbc

/-- What it decodes to is the start of the string. -/
theorem jsonEscapeString_decodes (s : Bytes) {n : Nat} (hn : 0 < n) :
    ∃ decoded, decoded <+: cstr s ∧ StringText (jsonEscapeString (some s) n) decoded := by
  obtain ⟨p, hp, he, _⟩ := escapeLoop_spec (cstr s) (show ([] : Bytes).length < n from hn)
  rw [List.nil_append] at he
  exact ⟨p, hp, by rw [jsonEscapeString, he]; exact escaped_decodes p⟩

/-- A text that `json_escape_string` left in an array of some size. -/
def EscapedText (text : Bytes) : Prop := ∃ input n, 0 < n ∧ text = jsonEscapeString input n

theorem EscapedText.spec {text : Bytes} (h : EscapedText text) :
    (∃ decoded, StringText text decoded) ∧ ∀ b ∈ text, 32 ≤ b := by
  obtain ⟨input, n, hn, rfl⟩ := h
  exact ⟨(jsonEscapeString_spec input hn).1, (jsonEscapeString_spec input hn).2.1⟩

/-! ## The host of an event -/

/-- The array `hostbuf`; `hostname` is what `gethostname` gives. -/
def hostBuffer (cfg : SyswatchConfig) (hostname : Option Bytes) : CString 128 :=
  if cfg.hostOverride.bytes ≠ [] then CString.ofBytes 128 cfg.hostOverride.bytes
  else match hostname with
    | some name => CString.ofBytes 128 name
    | none => CString.ofBytes 128 (ascii "unknown")

/-- `resolve_event_host` into an array of the given size. -/
def resolveEventHost (cfg : SyswatchConfig) (hostname : Option Bytes) (n : Nat) [NeZero n] :
    CString n where
  bytes := jsonEscapeString (some (hostBuffer cfg hostname).bytes) n
  noNul h := absurd ((jsonEscapeString_spec _ (NeZero.pos n)).2.1 0 h) (by decide)
  fits := (jsonEscapeString_spec _ (NeZero.pos n)).2.2

end Syswatch
