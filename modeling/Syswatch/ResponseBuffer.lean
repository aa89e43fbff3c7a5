import Syswatch.OutputRefinement

/-! # The body of a response

What a receiver answers is kept in 2048 bytes for the diagnostics. The lengths
of `write_response_cb` are a `size_t`, and wrap: that its subtraction does not
is an invariant over the chunks that libcurl delivers. -/

namespace Syswatch.ResponseBuffer
open Lib.CText OutputMemory

/-- What libcurl passes: `size * nmemb` bytes behind `ptr`. -/
structure Chunk where
  size : UInt64
  nmemb : UInt64
  bytes : Bytes
  length : bytes.length = size.toNat * nmemb.toNat
  noOverflow : size.toNat * nmemb.toNat < 2 ^ 64

/-- `response_buf_t` with its length as a `size_t`. -/
structure ResponseMemory where
  data : Buffer 2048
  len : UInt64

/-- The first `n` bytes behind `ptr`, if there are as many. -/
def Chunk.read (c : Chunk) (n : UInt64) : Option Bytes :=
  if n.toNat ≤ c.bytes.length then some (c.bytes.take n.toNat) else none

/-- `write_response_cb`: what it returns, and the buffer. -/
def writeResponse (buf : ResponseMemory) (c : Chunk) : Option (UInt64 × ResponseMemory) := do
  let space := 2048 - buf.len - 1
  let bytes := if c.size * c.nmemb > space then space else c.size * c.nmemb
  let data ← buf.data.write buf.len.toNat (← c.read bytes)
  let len := buf.len + bytes
  let data ← data.write len.toNat [0]
  some (c.size * c.nmemb, ⟨data, len⟩)

/-- What an attempt does to the buffer before it is performed. -/
def clear (data : Buffer 2048) : Option ResponseMemory :=
  (data.write 0 [0]).map fun data => ⟨data, 0⟩

/-- One transfer. libcurl aborts it when the callback returns another number than
that of the bytes passed to it: the result is whether it went through. -/
def transfer (buf : ResponseMemory) : List Chunk → Option (Bool × ResponseMemory)
  | [] => some (true, buf)
  | c :: rest => do
    let (taken, buf) ← writeResponse buf c
    if taken.toNat ≠ c.bytes.length then some (false, buf) else transfer buf rest

/-! ## What is kept -/

/-- The buffer holds the start of the response, with a NUL behind it. -/
structure Keeps (response : Bytes) (buf : ResponseMemory) : Prop where
  len : buf.len.toNat = min 2047 response.length
  bytes : ∃ rest, buf.data.bytes = response.take 2047 ++ 0 :: rest

variable {response : Bytes} {buf : ResponseMemory}

theorem Chunk.product (c : Chunk) : (c.size * c.nmemb).toNat = c.bytes.length := by
  rw [UInt64.toNat_mul, Nat.mod_eq_of_lt c.noOverflow, c.length]

theorem Keeps.len_le (h : Keeps response buf) : buf.len.toNat ≤ 2047 := by
  rw [h.len]
  exact min_le_left _ _

/-- The subtraction does not wrap. -/
theorem Keeps.space (h : Keeps response buf) :
    ((2048 : UInt64) - buf.len - 1).toNat = 2047 - response.length := by
  have hlen := h.len
  have hle := h.len_le
  have h2048 : (2048 : UInt64).toNat = 2048 := rfl
  have hfirst : ((2048 : UInt64) - buf.len).toNat = 2048 - buf.len.toNat := by
    rw [UInt64.toNat_sub_of_le _ _ (UInt64.le_iff_toNat_le.mpr (by omega)), h2048]
  have h1 : (1 : UInt64).toNat = 1 := rfl
  rw [UInt64.toNat_sub_of_le _ _ (UInt64.le_iff_toNat_le.mpr (by omega)), hfirst, h1]
  omega

theorem clear_keeps (data : Buffer 2048) : ∃ start, clear data = some start ∧ Keeps [] start := by
  obtain ⟨b, hb, hbytes⟩ := Buffer.write_start data (show ([0] : Bytes).length ≤ 2048 by decide)
  exact ⟨⟨b, 0⟩, by rw [clear, hb, Option.map_some], rfl, _, hbytes⟩

/-- What is copied of a chunk. -/
theorem Keeps.copied (h : Keeps response buf) (c : Chunk) :
    (if c.size * c.nmemb > (2048 : UInt64) - buf.len - 1 then (2048 : UInt64) - buf.len - 1
      else c.size * c.nmemb).toNat = min (2047 - response.length) c.bytes.length := by
  have hspace := h.space
  split
  · next hmore =>
    rw [gt_iff_lt, UInt64.lt_iff_toNat_lt, hspace, c.product] at hmore
    rw [hspace]
    omega
  · next hfits =>
    rw [gt_iff_lt, UInt64.lt_iff_toNat_lt, hspace, c.product] at hfits
    rw [c.product]
    omega

/-- **One chunk**: its part that fits is appended, and it is returned as taken
whole. Lengths that cannot wrap lead to the same buffer. -/
theorem Keeps.writeResponse (h : Keeps response buf) (c : Chunk) :
    ∃ next, writeResponse buf c = some (c.size * c.nmemb, next) ∧
      writeResponseCb ⟨buf.data, buf.len.toNat⟩ c.bytes = some ⟨next.data, next.len.toNat⟩ ∧
      Keeps (response ++ c.bytes) next := by
  have hlen := h.len
  have hcopied := h.copied c
  obtain ⟨rest, hbytes⟩ := h.bytes
  unfold ResponseBuffer.writeResponse
  dsimp only
  generalize (if c.size * c.nmemb > (2048 : UInt64) - buf.len - 1 then (2048 : UInt64) - buf.len - 1
      else c.size * c.nmemb) = n at hcopied ⊢
  have hread : c.read n = some (c.bytes.take (2047 - response.length)) := by
    rw [Chunk.read, hcopied, if_pos (min_le_right _ _)]
    exact congrArg some (List.take_eq_take_iff.mpr (by omega))
  have hsum : (buf.len + n).toNat = min 2047 (response ++ c.bytes).length := by
    rw [UInt64.toNat_add, hcopied, hlen, List.length_append, Nat.mod_eq_of_lt (by omega)]
    omega
  have hkept : (response ++ c.bytes).take 2047 =
      response.take 2047 ++ c.bytes.take (2047 - response.length) := List.take_append
  have hoffset : buf.len.toNat = (response.take 2047).length := by rw [hlen, List.length_take]
  have hend : (buf.len + n).toNat = ((response ++ c.bytes).take 2047).length := by
    rw [hsum, List.length_take]
  have hroom : buf.len.toNat + (c.bytes.take (2047 - response.length)).length ≤ 2048 := by
    rw [hlen, List.length_take]
    omega
  obtain ⟨data, hdata, hdataBytes⟩ := Buffer.write_some buf.data hroom
  obtain ⟨last, hlast, hlastBytes⟩ := Buffer.write_some data
    (show (buf.len + n).toNat + ([0] : Bytes).length ≤ 2048 by
      rw [hsum, List.length_singleton]
      omega)
  have hcut : (if c.bytes.length > 2048 - buf.len.toNat - 1 then c.bytes.take (2048 - buf.len.toNat - 1)
      else c.bytes) = c.bytes.take (2047 - response.length) := by
    split
    · exact List.take_eq_take_iff.mpr (by omega)
    · exact (List.take_of_length_le (by omega)).symm
  have hadvance : buf.len.toNat + (c.bytes.take (2047 - response.length)).length = (buf.len + n).toNat := by
    rw [hsum, hlen, List.length_take, List.length_append]
    omega
  refine ⟨⟨last, buf.len + n⟩, ?_, ?_, hsum, data.bytes.drop ((buf.len + n).toNat + 1), ?_⟩
  · simp only [hread, hdata, hlast, Option.bind_eq_bind, Option.bind_some]
  · simp only [writeResponseCb, hcut, hdata, hadvance, hlast, Option.bind_eq_bind, Option.bind_some]
  · rw [hbytes, hoffset, List.take_left, ← hkept] at hdataBytes
    rw [hend] at hlastBytes
    rw [hlastBytes, hdataBytes, List.take_left, List.append_assoc, hend]
    rfl

/-- **A whole transfer** goes through and leaves the start of the response. -/
theorem Keeps.transfer (h : Keeps response buf) (chunks : List Chunk) :
    ∃ last, transfer buf chunks = some (true, last) ∧
      (chunks.map Chunk.bytes).foldlM writeResponseCb ⟨buf.data, buf.len.toNat⟩ =
        some ⟨last.data, last.len.toNat⟩ ∧
      Keeps (response ++ chunks.flatMap Chunk.bytes) last := by
  induction chunks generalizing response buf with
  | nil => exact ⟨buf, rfl, rfl, by simpa using h⟩
  | cons c chunks ih =>
    obtain ⟨next, hwrite, hcb, hnext⟩ := h.writeResponse c
    obtain ⟨last, htransfer, hfold, hlast⟩ := ih hnext
    refine ⟨last, ?_, ?_, ?_⟩
    · rw [ResponseBuffer.transfer, hwrite, Option.bind_eq_bind, Option.bind_some]
      exact (if_neg (not_not.mpr c.product)).trans htransfer
    · rw [List.map_cons, List.foldlM_cons, hcb]
      exact hfold
    · rw [List.flatMap_cons, ← List.append_assoc]
      exact hlast

/-- **The response buffer** within one attempt, whatever it held before: at every
point it holds the first 2047 bytes received and a NUL, and the next chunk is
taken whole with a subtraction that does not wrap. -/
theorem response_buffer_keeps (data : Buffer 2048) (chunks : List Chunk) :
    ∃ start last, clear data = some start ∧ transfer start chunks = some (true, last) ∧
      Keeps (chunks.flatMap Chunk.bytes) last ∧ last.len.toNat ≤ 2047 ∧
      ((2048 : UInt64) - last.len - 1).toNat = 2048 - last.len.toNat - 1 ∧
      (∀ c, ∃ next, writeResponse last c = some (c.size * c.nmemb, next) ∧
        (c.size * c.nmemb).toNat = c.bytes.length) ∧
      (chunks.map Chunk.bytes).foldlM writeResponseCb ⟨start.data, 0⟩ =
        some ⟨last.data, last.len.toNat⟩ := by
  obtain ⟨start, hstart, hkeeps⟩ := clear_keeps data
  obtain ⟨last, htransfer, hfold, hlast⟩ := hkeeps.transfer chunks
  have hzero : start.len.toNat = 0 := hkeeps.len
  rw [List.nil_append] at hlast
  rw [hzero] at hfold
  refine ⟨start, last, hstart, htransfer, hlast, hlast.len_le, ?_, ?_, hfold⟩
  · rw [hlast.space, hlast.len]
    omega
  · intro c
    obtain ⟨next, hwrite, -⟩ := hlast.writeResponse c
    exact ⟨next, hwrite, c.product⟩

end Syswatch.ResponseBuffer
