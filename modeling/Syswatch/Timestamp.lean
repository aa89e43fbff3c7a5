import Syswatch.EventJson
import Syswatch.Lib.CBuffer

/-! # Formatting the time (`utils.c`)

The offset that `%z` gives gets its colon in place: the bytes behind the hour
move up by one. The move ends where the terminator stood, so that what
terminates the string afterwards is whatever the array held before. -/

namespace Syswatch.Timestamp
open Lib.CText EventJson

/-- `struct tm` as `localtime` fills it, with the year and the month counted as
`strftime` prints them, and the text of `%z`. -/
structure Tm where
  year : Int
  month : Nat
  day : Nat
  hour : Nat
  minute : Nat
  second : Nat
  zone : Bytes

/-- `%0*u`. -/
def zeroPadded (width n : Nat) : Bytes :=
  List.replicate (width - (decimal n).length) 48 ++ decimal n

/-- `%Y-%m-%dT%H:%M:%S`. -/
def isoText (tm : Tm) : Bytes :=
  (if tm.year < 0 then ascii "-" else []) ++ decimal tm.year.natAbs ++ ascii "-" ++
    zeroPadded 2 tm.month ++ ascii "-" ++ zeroPadded 2 tm.day ++ ascii "T" ++
    zeroPadded 2 tm.hour ++ ascii ":" ++ zeroPadded 2 tm.minute ++ ascii ":" ++
    zeroPadded 2 tm.second

/-- `strftime` of a format that gives this text: the text and its terminator are
written and counted, or there is no room and the result is 0. -/
def strftime {n : Nat} (dst : Buffer n) (text : Bytes) : Option (Nat × Buffer n) :=
  if text.length < n then (dst.write 0 (text ++ [0])).map fun b => (text.length, b)
  else some (0, dst)

/-- `format_rfc3339(ts, buf, len)`, with what the two local arrays hold when it
is called. There is no result where it reads or writes past an array. -/
def formatRfc3339 (localtime : Int → Option Tm) (isoBuf : Buffer 32) (tzBuf : Buffer 16)
    (ts : Option Timespec) {len : Nat} (buf : Buffer len) : Option (Buffer len) :=
  if len = 0 then some buf
  else
    match ts with
    | none => buf.snprintf (ascii "1970-01-01T00:00:00Z")
    | some ts =>
      match localtime ts.tvSec with
      | none => buf.snprintf (ascii "1970-01-01T00:00:00Z")
      | some tm => do
        let (_, isoBuf) ← strftime isoBuf (isoText tm)
        let (count, tzBuf) ← strftime tzBuf tm.zone
        let tzBuf ← if count = 5 then (tzBuf.memmove 3 2 3).bind fun b => b.write 3 (ascii ":")
          else tzBuf.snprintf (ascii "Z")
        let msec := (ts.tvNsec.tdiv 1000000 % 2 ^ 32).toNat
        let iso ← isoBuf.string?
        let tz ← tzBuf.string?
        buf.snprintf (iso ++ ascii "." ++ zeroPadded 3 msec ++ tz)

/-! ## The text that is wanted -/

/-- A broken-down time with a year of four digits. -/
structure Tm.Normal (tm : Tm) : Prop where
  year : 1000 ≤ tm.year ∧ tm.year ≤ 9999
  month : tm.month < 100
  day : tm.day < 100
  hour : tm.hour < 100
  minute : tm.minute < 100
  second : tm.second < 100

/-- The offset as `%z` prints it, a sign and four digits. -/
structure Offset where
  sign : UInt8
  h₁ : UInt8
  h₂ : UInt8
  m₁ : UInt8
  m₂ : UInt8
  signed : sign = 43 ∨ sign = 45
  digits : isDigit h₁ ∧ isDigit h₂ ∧ isDigit m₁ ∧ isDigit m₂

def Offset.zone (o : Offset) : Bytes := [o.sign, o.h₁, o.h₂, o.m₁, o.m₂]

/-- The offset with its colon. -/
def Offset.text (o : Offset) : Bytes := [o.sign, o.h₁, o.h₂, 58, o.m₁, o.m₂]

/-- `YYYY-MM-DDTHH:MM:SS.mmm+HH:MM`. -/
def rfc3339Text (tm : Tm) (o : Offset) (tvNsec : Int) : Bytes :=
  isoText tm ++ ascii "." ++ zeroPadded 3 (tvNsec / 1000000).toNat ++ o.text

theorem zeroPadded_digits (width n : Nat) : ∀ b ∈ zeroPadded width n, isDigit b = true := by
  intro b hb
  rcases List.mem_append.mp hb with hb | hb
  · rw [List.eq_of_mem_replicate hb]
    rfl
  · exact isDigit_of_mem_decimal hb

theorem zeroPadded_length {width n : Nat} (hw : 0 < width) (h : n < 10 ^ width) :
    (zeroPadded width n).length = width := by
  have := (decimal_length_le_iff hw).mpr h
  rw [zeroPadded, List.length_append, List.length_replicate]
  omega

theorem year_text {tm : Tm} (h : 1000 ≤ tm.year ∧ tm.year ≤ 9999) :
    (if tm.year < 0 then ascii "-" else []) ++ decimal tm.year.natAbs =
      zeroPadded 4 tm.year.natAbs := by
  have hlow : ¬(decimal tm.year.natAbs).length ≤ 3 := by
    rw [decimal_length_le_iff (by decide)]
    omega
  rw [if_neg (by omega), zeroPadded, show 4 - (decimal tm.year.natAbs).length = 0 by omega]
  rfl

/-- Digits in their places pass the tests, whatever follows. -/
theorem shaped_digits {k : Nat} {ds : Bytes} (hlen : ds.length = k)
    (hd : ∀ b ∈ ds, isDigit b = true) (ps : List (UInt8 → Bool)) (rest : Bytes) :
    shaped (List.replicate k isDigit ++ ps) (ds ++ rest) = shaped ps rest := by
  induction ds generalizing k with
  | nil =>
    subst hlen
    rfl
  | cons d ds ih =>
    subst hlen
    rw [List.length_cons, List.replicate_succ, List.cons_append, List.cons_append, shaped,
      hd d (by simp), Bool.true_and, ih rfl fun b hb => hd b (by simp [hb])]

theorem shaped_padded {k n : Nat} (hk : 0 < k) (hn : n < 10 ^ k) (ps : List (UInt8 → Bool))
    (rest : Bytes) :
    shaped (List.replicate k isDigit ++ ps) (zeroPadded k n ++ rest) = shaped ps rest :=
  shaped_digits (zeroPadded_length hk hn) (zeroPadded_digits k n) ps rest

theorem isoText_shaped {tm : Tm} (h : tm.Normal) : shaped dateTimeShape (isoText tm) = true := by
  have hyear : tm.year.natAbs < 10 ^ 4 := by
    have := h.year
    omega
  have hshape : dateTimeShape = List.replicate 4 isDigit ++ isByte 45 :: (List.replicate 2 isDigit ++
      isByte 45 :: (List.replicate 2 isDigit ++ (fun c => c == 84 || c == 116) ::
        (List.replicate 2 isDigit ++ isByte 58 :: (List.replicate 2 isDigit ++ isByte 58 ::
          (List.replicate 2 isDigit ++ []))))) := rfl
  have htext : isoText tm = zeroPadded 4 tm.year.natAbs ++ 45 :: (zeroPadded 2 tm.month ++
      45 :: (zeroPadded 2 tm.day ++ 84 :: (zeroPadded 2 tm.hour ++ 58 :: (zeroPadded 2 tm.minute ++
        58 :: (zeroPadded 2 tm.second ++ []))))) := by
    rw [isoText, year_text h.year]
    simp [ascii]
  rw [hshape, htext, shaped_padded (by decide) hyear, shaped, shaped_padded (by decide) h.month,
    shaped, shaped_padded (by decide) h.day, shaped, shaped_padded (by decide) h.hour, shaped,
    shaped_padded (by decide) h.minute, shaped, shaped_padded (by decide) h.second]
  rfl

theorem shaped_length {ps : List (UInt8 → Bool)} {s : Bytes} (h : shaped ps s = true) :
    s.length = ps.length := by
  induction ps generalizing s with
  | nil =>
    cases s with
    | nil => rfl
    | cons b s => cases h
  | cons p ps ih =>
    cases s with
    | nil => cases h
    | cons b s =>
      rw [shaped, Bool.and_eq_true] at h
      rw [List.length_cons, List.length_cons, ih h.2]

theorem Offset.shaped (o : Offset) : EventJson.shaped offsetShape o.text = true := by
  obtain ⟨h₁, h₂, m₁, m₂⟩ := o.digits
  rcases o.signed with hs | hs <;>
    simp [offsetShape, Offset.text, EventJson.shaped, isByte, hs, h₁, h₂, m₁, m₂]

/-- The wanted text has 29 characters and is a date and time of RFC 3339. -/
theorem rfc3339Text_spec {tm : Tm} (h : tm.Normal) (o : Offset) {tvNsec : Int}
    (hn : 0 ≤ tvNsec ∧ tvNsec < 10 ^ 9) :
    (rfc3339Text tm o tvNsec).length = 29 ∧ Rfc3339 (rfc3339Text tm o tvNsec) := by
  have hms : (tvNsec / 1000000).toNat < 10 ^ 3 := by omega
  have hlen := zeroPadded_length (by decide : 0 < 3) hms
  have hiso := shaped_length (isoText_shaped h)
  refine ⟨?_, isoText tm, 46 :: zeroPadded 3 (tvNsec / 1000000).toNat, o.text, ?_, isoText_shaped h,
    .inr ⟨_, ?_, zeroPadded_digits _ _, rfl⟩, .inr (.inr o.shaped)⟩
  · simp only [rfc3339Text, List.length_append, hiso, hlen]
    rfl
  · simp [rfc3339Text, ascii]
  · intro hnil
    rw [hnil] at hlen
    cases hlen

/-! ## What is written -/

theorem strftime_fits {n : Nat} (dst : Buffer n) {text : Bytes} (h : text.length < n) :
    ∃ b, strftime dst text = some (text.length, b) ∧
      b.bytes = text ++ 0 :: dst.bytes.drop (text.length + 1) := by
  obtain ⟨b, hb, hbytes⟩ := Buffer.write_start dst (show (text ++ [0]).length ≤ n by
    rw [List.length_append, List.length_singleton]; omega)
  refine ⟨b, by rw [strftime, if_pos h, hb]; rfl, ?_⟩
  rw [hbytes]
  simp

/-- The offset after the colon has been put in: its terminator is gone. -/
theorem tzBuf_moved (o : Offset) (tzBuf : Buffer 16) :
    ∃ b b' : Buffer 16, strftime tzBuf o.zone = some (5, b) ∧
      ((b.memmove 3 2 3).bind fun b => b.write 3 (ascii ":")) = some b' ∧
      b'.bytes = o.text ++ tzBuf.bytes.drop 6 := by
  obtain ⟨b, hb, hbytes⟩ := strftime_fits tzBuf
    (show o.zone.length < 16 from Nat.lt_of_sub_eq_succ rfl)
  obtain ⟨b₁, hb₁, hbytes₁⟩ := Buffer.write_some b
    (show 3 + ((b.bytes.drop 2).take 3).length ≤ 16 by simp [b.size])
  obtain ⟨b₂, hb₂, hbytes₂⟩ := Buffer.write_some b₁
    (show 3 + (ascii ":").length ≤ 16 by decide)
  refine ⟨b, b₂, hb, ?_, ?_⟩
  · rw [Buffer.memmove, if_pos (by decide), hb₁, Option.bind_some, hb₂]
  · rw [hbytes₂, hbytes₁, hbytes]
    simp [Offset.zone, Offset.text, ascii]

theorem isoBuf_written {tm : Tm} (h : tm.Normal) (isoBuf : Buffer 32) :
    ∃ b, strftime isoBuf (isoText tm) = some ((isoText tm).length, b) ∧
      b.string? = some (isoText tm) := by
  have hlen : (isoText tm).length = 19 := shaped_length (isoText_shaped h)
  have h0 : (0 : UInt8) ∉ isoText tm := fun h0 =>
    absurd (plain_of_shaped (fun p hp => plain_of_shape (List.mem_append_left _ hp))
      (isoText_shaped h) 0 h0).1 (by decide)
  obtain ⟨b, hb, hbytes⟩ := strftime_fits isoBuf (show (isoText tm).length < 32 by omega)
  exact ⟨b, hb, Buffer.string?_of_bytes h0 hbytes⟩

/-- The offset is read up to the first NUL the array had behind it. -/
theorem tzBuf_string {o : Offset} {tzBuf b : Buffer 16}
    (hb : b.bytes = o.text ++ tzBuf.bytes.drop 6) :
    b.string? = if (0 : UInt8) ∈ tzBuf.bytes.drop 6 then
      some (o.text ++ cstr (tzBuf.bytes.drop 6)) else none := by
  have h0 : ∀ b ∈ o.text, b ≠ 0 := fun b hb => by
    rintro rfl
    exact absurd (plain_of_shaped (fun p hp => plain_of_shape (List.mem_append_right _ hp)) o.shaped
      0 hb).1 (by decide)
  have hmem : (0 : UInt8) ∈ b.bytes ↔ (0 : UInt8) ∈ tzBuf.bytes.drop 6 := by
    rw [hb, List.mem_append, or_iff_right fun h => h0 0 h rfl]
  simp only [Buffer.string?, hmem, Buffer.text, cstr]
  rw [hb, List.takeWhile_append_of_pos fun b hb => by simpa using h0 b hb]

/-- A text that is printed whole ends with its terminator; one that goes on does not. -/
theorem snprintf_exact_iff {buf : Buffer 64} {s tail : Bytes} (hs : s.length = 29)
    (h0 : (0 : UInt8) ∉ tail) :
    buf.snprintf (s ++ tail) = buf.write 0 (s ++ [0]) ↔ tail = [] := by
  constructor
  · intro h
    obtain ⟨b, hb, hbytes⟩ := Buffer.write_start buf
      (show ((s ++ tail).take 63 ++ [0]).length ≤ 64 by simp)
    obtain ⟨b', hb', hbytes'⟩ := Buffer.write_start buf (show (s ++ [0]).length ≤ 64 by simp [hs])
    rw [Buffer.snprintf, hb, hb', Option.some.injEq] at h
    cases tail with
    | nil => rfl
    | cons c tail =>
      have hbyte : b.bytes[29]? = b'.bytes[29]? := by rw [h]
      have hfirst : b.bytes[29]? = some c := by simp [hbytes, List.getElem?_append, hs]
      have hsecond : b'.bytes[29]? = some 0 := by simp [hbytes', hs]
      rw [hfirst, hsecond, Option.some.injEq] at hbyte
      exact absurd (hbyte ▸ List.mem_cons_self) h0
  · rintro rfl
    rw [List.append_nil, Buffer.snprintf, List.take_of_length_le (by omega)]

/-- **When the time is written as it should be.** Exactly when the byte that
stood behind the text of `%z` was NUL. -/
theorem format_rfc3339_iff (localtime : Int → Option Tm) {ts : Timespec} {tm : Tm} {o : Offset}
    (hlocal : localtime ts.tvSec = some tm) (hnormal : tm.Normal) (hzone : tm.zone = o.zone)
    (hnsec : 0 ≤ ts.tvNsec ∧ ts.tvNsec < 10 ^ 9) (isoBuf : Buffer 32) (tzBuf : Buffer 16)
    (buf : Buffer 64) :
    ((rfc3339Text tm o ts.tvNsec).length = 29 ∧ Rfc3339 (rfc3339Text tm o ts.tvNsec)) ∧
    (formatRfc3339 localtime isoBuf tzBuf (some ts) buf =
        buf.write 0 (rfc3339Text tm o ts.tvNsec ++ [0]) ↔
      tzBuf.bytes[6]? = some 0) := by
  have hspec := rfc3339Text_spec hnormal o hnsec
  refine ⟨hspec, ?_⟩
  obtain ⟨iso, hiso, hisoText⟩ := isoBuf_written hnormal isoBuf
  obtain ⟨tz, tz', htz, hmoved, hbytes⟩ := tzBuf_moved o tzBuf
  have hms : (ts.tvNsec.tdiv 1000000 % 2 ^ 32).toNat = (ts.tvNsec / 1000000).toNat := by
    rw [Int.tdiv_eq_ediv_of_nonneg hnsec.1]
    omega
  obtain ⟨c, rest, hrest⟩ : ∃ c rest, tzBuf.bytes.drop 6 = c :: rest :=
    List.exists_cons_of_length_pos (by rw [List.length_drop, tzBuf.size]; decide)
  have hsixth : tzBuf.bytes[6]? = some c := by
    rw [← List.head?_drop, hrest]
    rfl
  have hrun : formatRfc3339 localtime isoBuf tzBuf (some ts) buf =
      if (0 : UInt8) ∈ c :: rest then
        buf.snprintf (rfc3339Text tm o ts.tvNsec ++ cstr (c :: rest)) else none := by
    simp only [formatRfc3339, hlocal, hiso, hzone, htz, hmoved, hisoText, tzBuf_string hbytes, hrest,
      hms, Option.bind_eq_bind, Option.bind_some, if_true]
    rw [if_neg (by decide)]
    split <;> simp [rfc3339Text]
  rw [hrun, hsixth, Option.some.injEq]
  by_cases hc : c = 0
  · subst hc
    rw [if_pos (by simp)]
    exact iff_of_true ((snprintf_exact_iff hspec.1 (zero_notMem_cstr _)).mpr (by simp [cstr])) rfl
  · refine iff_of_false ?_ hc
    split
    · rw [snprintf_exact_iff hspec.1 (zero_notMem_cstr _)]
      simp [cstr, hc]
    · obtain ⟨b, hb, _⟩ := Buffer.write_start buf
        (show (rfc3339Text tm o ts.tvNsec ++ [0]).length ≤ 64 by simp [hspec.1])
      rw [hb]
      simp

def sampleTm : Tm := ⟨2026, 4, 28, 14, 23, 1, ascii "+0200"⟩

def sampleOffset : Offset := ⟨43, 48, 50, 48, 48, by decide, by decide⟩

def sampleTs : Timespec := ⟨1777378981, 234000000⟩

theorem sampleTm_normal : sampleTm.Normal := by
  constructor <;> decide

theorem format_rfc3339_example :
    ((rfc3339Text sampleTm sampleOffset 234000000).length = 29 ∧
      Rfc3339 (rfc3339Text sampleTm sampleOffset 234000000)) ∧
    (formatRfc3339 (fun _ => some sampleTm) (.zero 32) (.zero 16) (some sampleTs) (.zero 64) =
        (Buffer.zero 64).write 0 (rfc3339Text sampleTm sampleOffset 234000000 ++ [0]) ↔
      (Buffer.zero 16).bytes[6]? = some 0) :=
  @format_rfc3339_iff (fun _ => some sampleTm) sampleTs _ _ rfl sampleTm_normal rfl (by decide) _ _ _

/-- An array full of `x` but for its last byte: the `x` go into the timestamp. -/
def dirtyTz : Buffer 16 := ⟨List.replicate 15 120 ++ [0], by decide⟩

theorem timestamp_dirty : ¬∀ (isoBuf : Buffer 32) (tzBuf : Buffer 16) (buf : Buffer 64),
    formatRfc3339 (fun _ => some sampleTm) isoBuf tzBuf (some sampleTs) buf =
      buf.write 0 (rfc3339Text sampleTm sampleOffset sampleTs.tvNsec ++ [0]) := fun h =>
  absurd (h (.zero 32) dirtyTz (.zero 64)) (by decide +kernel)

end Syswatch.Timestamp
