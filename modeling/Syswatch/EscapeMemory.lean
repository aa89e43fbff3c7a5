import Syswatch.Lib.CBuffer
import Syswatch.Escape

/-! # The escaped string in its array (`output.c`)

`json_escape_string` once more, on the bytes of `output`: a write behind the
last of them has no result. -/

namespace Syswatch
open Lib.CText Lib.JsonText

variable {n : Nat}

/-- The loop of `json_escape_string`; `n` is `output_size`. -/
def escapeInto : Bytes → Buffer n → Nat → Option (Buffer n × Nat)
  | [], output, written => some (output, written)
  | c :: cursor, output, written =>
    if written + 1 < n then
      match escapeOf c with
      | some replacement =>
        if written + replacement.length ≥ n then some (output, written)
        else do
          let output ← output.write written replacement
          escapeInto cursor output (written + replacement.length)
      | none => do
        let output ← output.write written [c]
        escapeInto cursor output (written + 1)
    else some (output, written)

/-- `json_escape_string(input, output, n)`, for an `output` that is not NULL. -/
def jsonEscapeInto (input : Option Bytes) (output : Buffer n) : Option (Buffer n) :=
  if n = 0 then some output
  else do
    let output ← output.write 0 [0]
    match input with
    | none => some output
    | some s =>
      let (output, written) ← escapeInto (cstr s) output 0
      output.write written [0]

namespace EscapeMemory

/-- Bytes written behind a text, in front of what the array holds behind them. -/
theorem write_behind {output : Buffer n} {text rest r : Bytes} (h : output.bytes = text ++ rest)
    (hfit : text.length + r.length ≤ n) :
    ∃ output', output.write text.length r = some output' ∧
      output'.bytes = text ++ r ++ output.bytes.drop (text ++ r).length := by
  obtain ⟨b, hb, hbytes⟩ := Buffer.write_some output hfit
  refine ⟨b, hb, ?_⟩
  rw [hbytes, h, List.take_left, List.length_append]

/-- The loop leaves the text of the list model, and the array as it was behind it. -/
theorem escapeInto_spec (cursor : Bytes) {output : Buffer n} {text rest : Bytes}
    (h : output.bytes = text ++ rest) (hlt : text.length < n) :
    ∃ output', escapeInto cursor output text.length =
        some (output', (escapeLoop n text cursor).length) ∧
      output'.bytes = escapeLoop n text cursor ++
        output.bytes.drop (escapeLoop n text cursor).length := by
  induction cursor generalizing output text rest with
  | nil => exact ⟨output, rfl, by simp [escapeLoop, h]⟩
  | cons c cursor ih =>
    have hstop : ∃ output', some (output, text.length) = some (output', text.length) ∧
        output'.bytes = text ++ output.bytes.drop text.length := ⟨output, rfl, by simp [h]⟩
    have hgo {r : Bytes} (hr : text.length + r.length < n) : ∃ output₁ output',
        output.write text.length r = some output₁ ∧
        escapeInto cursor output₁ (text.length + r.length) =
          some (output', (escapeLoop n (text ++ r) cursor).length) ∧
        output'.bytes = escapeLoop n (text ++ r) cursor ++
          output.bytes.drop (escapeLoop n (text ++ r) cursor).length := by
      obtain ⟨output₁, hwrite, hbytes⟩ := write_behind h hr.le
      obtain ⟨output', hloop, hout⟩ := ih hbytes (by rwa [List.length_append])
      refine ⟨output₁, output', hwrite, by rwa [List.length_append] at hloop, hout.trans ?_⟩
      obtain ⟨p, -, he, -⟩ := escapeLoop_spec cursor (show (text ++ r).length < n by
        rwa [List.length_append])
      rw [he, hbytes, List.length_append, ← List.drop_drop, List.drop_left, List.drop_drop]
    rw [escapeInto, escapeLoop]
    split
    · next hroom =>
      cases hc : escapeOf c with
      | none =>
        obtain ⟨output₁, output', hwrite, hloop, hout⟩ := hgo (r := [c]) hroom
        exact ⟨output', by simp only [hwrite, Option.bind_eq_bind, Option.bind_some]; exact hloop, hout⟩
      | some r =>
        by_cases hfull : text.length + r.length ≥ n
        · simp only [if_pos hfull]
          exact hstop
        · obtain ⟨output₁, output', hwrite, hloop, hout⟩ := hgo (not_le.mp hfull)
          simp only [if_neg hfull]
          exact ⟨output', by simp only [hwrite, Option.bind_eq_bind, Option.bind_some]; exact hloop,
            hout⟩
    · exact hstop

/-- **`json_escape_string` stays inside its array** and leaves the text of the
list model there, with its terminator. -/
theorem jsonEscapeInto_spec (s : Bytes) (hn : 0 < n) (output : Buffer n) :
    ∃ output', jsonEscapeInto (some s) output = some output' ∧
      output'.bytes = jsonEscapeString (some s) n ++
        0 :: output.bytes.drop ((jsonEscapeString (some s) n).length + 1) := by
  obtain ⟨first, hfirst, hbytes⟩ := Buffer.write_start output (show ([0] : Bytes).length ≤ n from hn)
  obtain ⟨looped, hloop, hlooped⟩ := escapeInto_spec (cstr s)
    (show first.bytes = [] ++ first.bytes from rfl) hn
  have hlt := (jsonEscapeString_spec (some s) hn).2.2
  obtain ⟨output', hlast, hout⟩ := write_behind (r := [0]) hlooped (show _ + 1 ≤ n from hlt)
  refine ⟨output', ?_, ?_⟩
  · simp only [jsonEscapeInto, if_neg hn.ne', hfirst, Option.bind_eq_bind, Option.bind_some]
    rw [show (0 : Nat) = ([] : Bytes).length from rfl, hloop]
    exact hlast
  · rw [hout, hlooped, hbytes, List.length_append, ← List.drop_drop, List.drop_left, List.drop_drop,
      List.append_assoc]
    simp [jsonEscapeString]

/-- How a byte stands in the output: as itself, or as a whole escape. -/
def Token (c : UInt8) (text : Bytes) : Prop :=
  text = [c] ∧ Plain c ∨ ∃ used, text = 92 :: used ∧ ∀ rest, escape (used ++ rest) = some ([c], rest)

theorem escaped_token (c : UInt8) : Token c (escaped c) := by
  unfold escaped
  cases h : escapeOf c with
  | none => exact .inl ⟨rfl, plain_of_escapeOf h⟩
  | some r => exact .inr (escapeOf_reads h)

/-- The longest prefix of a string whose escape has at most so many bytes. -/
structure LongestEscaped (s : Bytes) (room : Nat) (p : Bytes) : Prop where
  isPrefix : p <+: s
  fits : (p.flatMap escaped).length ≤ room
  longest : ∀ q, q <+: s → (q.flatMap escaped).length ≤ room → q <+: p

theorem longestEscaped_loop (s : Bytes) (hn : 0 < n) :
    ∃ p, jsonEscapeString (some s) n = p.flatMap escaped ∧ LongestEscaped (cstr s) (n - 1) p := by
  obtain ⟨p, rest, hsplit, he, hl, hnext⟩ :=
    escapeLoop_stops (cstr s) (show ([] : Bytes).length < n from hn)
  rw [List.nil_append] at he hl hnext
  refine ⟨p, he, ⟨rest, hsplit.symm⟩, by omega, fun q hq hfit => ?_⟩
  rcases List.prefix_or_prefix_of_prefix hq ⟨rest, hsplit.symm⟩ with h | ⟨more, rfl⟩
  · exact h
  · -- what `q` has over `p` would have to start with the byte that did not fit
    cases more with
    | nil => simp
    | cons c more =>
      obtain ⟨tail, htail⟩ := hq
      have hc : c ∈ rest.head? := by
        rw [hsplit, List.append_assoc, List.append_cancel_left_eq] at htail
        rw [← htail]
        rfl
      have := hnext c hc
      simp only [List.flatMap_append, List.flatMap_cons, List.length_append] at hfit
      omega

/-- **What `json_escape_string` leaves.** The escape of the longest prefix that
fits, made of whole tokens, which is read back as that prefix. -/
theorem json_escape_string_output (s : Bytes) (hn : 0 < n) (output : Buffer n) :
    ∃ output' p, jsonEscapeInto (some s) output = some output' ∧
      output'.bytes = p.flatMap escaped ++
        0 :: output.bytes.drop ((p.flatMap escaped).length + 1) ∧
      LongestEscaped (cstr s) (n - 1) p ∧ (∀ c ∈ p, Token c (escaped c)) ∧
      (∀ b ∈ p.flatMap escaped, 32 ≤ b) ∧ StringText (p.flatMap escaped) p ∧
      (((cstr s).flatMap escaped).length ≤ n - 1 → p = cstr s) := by
  obtain ⟨output', hout, hbytes⟩ := jsonEscapeInto_spec s hn output
  obtain ⟨p, he, hp⟩ := longestEscaped_loop s hn
  rw [he] at hbytes
  refine ⟨output', p, hout, hbytes, hp, fun c _ => escaped_token c, ?_, escaped_decodes p, ?_⟩
  · rw [← he]
    exact (jsonEscapeString_spec (some s) hn).2.1
  · intro hfit
    exact hp.isPrefix.eq_of_length_le (hp.longest _ List.prefix_rfl hfit).length_le

/-- Of a quote and an `a` the quote alone fits in front of the terminator. -/
theorem json_escape_string_output_example :
    ∃ output' p, jsonEscapeInto (some (ascii "\"a")) (.zero 3) = some output' ∧
      output'.bytes = p.flatMap escaped ++
        0 :: (Buffer.zero 3).bytes.drop ((p.flatMap escaped).length + 1) ∧
      LongestEscaped (cstr (ascii "\"a")) (3 - 1) p ∧ (∀ c ∈ p, Token c (escaped c)) ∧
      (∀ b ∈ p.flatMap escaped, 32 ≤ b) ∧ StringText (p.flatMap escaped) p ∧
      (((cstr (ascii "\"a")).flatMap escaped).length ≤ 3 - 1 → p = cstr (ascii "\"a")) :=
  json_escape_string_output (ascii "\"a") (by decide) (.zero 3)

end EscapeMemory
end Syswatch
