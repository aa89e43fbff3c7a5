import Syswatch.Lib.CText

/-! # Writing and moving bytes in arrays

Every access is checked: what would read or write past an array of `n` bytes has
no result. -/

namespace Syswatch.Lib.CText

variable {n : Nat}

/-- Bytes written from an offset on. -/
def Buffer.write (dst : Buffer n) (offset : Nat) (s : Bytes) : Option (Buffer n) :=
  if h : offset + s.length ≤ n then
    some ⟨dst.bytes.take offset ++ s ++ dst.bytes.drop (offset + s.length), by
      simp [dst.size]
      omega⟩
  else none

/-- The string at the start of an array, if it has its terminator there. -/
def Buffer.string? (b : Buffer n) : Option Bytes :=
  if (0 : UInt8) ∈ b.bytes then some b.text else none

/-- `memmove(dst + target, dst + source, len)` within one array. -/
def Buffer.memmove (dst : Buffer n) (target source len : Nat) : Option (Buffer n) :=
  if source + len ≤ n then dst.write target ((dst.bytes.drop source).take len) else none

/-- `strcat(dst, src)`. -/
def Buffer.strcat (dst : Buffer n) (src : Bytes) : Option (Buffer n) :=
  dst.string?.bind fun s => dst.write s.length (src ++ [0])

/-- `snprintf(dst, n, ..)` of the formatted text, for an array that is not empty. -/
def Buffer.snprintf (dst : Buffer n) (s : Bytes) : Option (Buffer n) :=
  dst.write 0 (s.take (n - 1) ++ [0])

theorem Buffer.write_some (dst : Buffer n) {offset : Nat} {s : Bytes} (h : offset + s.length ≤ n) :
    ∃ b, dst.write offset s = some b ∧
      b.bytes = dst.bytes.take offset ++ s ++ dst.bytes.drop (offset + s.length) :=
  ⟨_, dif_pos h, rfl⟩

theorem Buffer.write_start (dst : Buffer n) {s : Bytes} (h : s.length ≤ n) :
    ∃ b, dst.write 0 s = some b ∧ b.bytes = s ++ dst.bytes.drop s.length := by
  obtain ⟨b, hb, hbytes⟩ := write_some dst (show 0 + s.length ≤ n by omega)
  exact ⟨b, hb, by simpa using hbytes⟩

/-- A string in front of its terminator is read whole. -/
theorem Buffer.string?_of_bytes {b : Buffer n} {s rest : Bytes} (h0 : (0 : UInt8) ∉ s)
    (h : b.bytes = s ++ 0 :: rest) : b.string? = some s := by
  rw [string?, h, if_pos (by simp), text, h, cstr_append_nul h0]

theorem Buffer.string?_iff {b : Buffer n} {s : Bytes} :
    b.string? = some s ↔ (0 : UInt8) ∉ s ∧ ∃ rest, b.bytes = s ++ 0 :: rest := by
  constructor
  · intro h
    rw [string?] at h
    split at h
    · next hmem =>
      cases h
      refine ⟨zero_notMem_cstr _, ?_⟩
      have hsplit := List.takeWhile_append_dropWhile (p := (· != (0 : UInt8))) (l := b.bytes)
      have hne : b.bytes.dropWhile (· != 0) ≠ [] := fun hnil => by
        rw [List.dropWhile_eq_nil_iff] at hnil
        exact absurd (hnil 0 hmem) (by decide)
      obtain ⟨c, rest, hc⟩ := List.exists_cons_of_ne_nil hne
      have h0 : c = 0 := by
        have := List.head_dropWhile_not (· != (0 : UInt8)) hne
        simpa [hc] using this
      exact ⟨rest, by rw [← hsplit, hc, h0]; rfl⟩
    · cases h
  · rintro ⟨h0, rest, h⟩
    exact string?_of_bytes h0 h

/-- Appending stays inside the array as long as the terminator does. -/
theorem Buffer.strcat_spec {dst : Buffer n} {s src : Bytes} (h : dst.string? = some s)
    (h0 : (0 : UInt8) ∉ src) (hfit : s.length + src.length < n) :
    ∃ b, dst.strcat src = some b ∧ b.string? = some (s ++ src) := by
  obtain ⟨hs, rest, hbytes⟩ := string?_iff.mp h
  obtain ⟨b, hb, hb'⟩ := write_some dst (show s.length + (src ++ [0]).length ≤ n by
    rw [List.length_append, List.length_singleton]
    omega)
  refine ⟨b, by rw [strcat, h, Option.bind_some, hb], ?_⟩
  rw [hbytes, List.take_left] at hb'
  exact string?_of_bytes (by simp [hs, h0])
    (hb'.trans (by rw [← List.append_assoc, List.append_assoc]; rfl))

end Syswatch.Lib.CText
