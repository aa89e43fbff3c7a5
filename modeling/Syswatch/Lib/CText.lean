import Mathlib.Data.List.Basic
import Mathlib.Data.List.TakeWhile
import Mathlib.Tactic

/-! # C strings and the text functions of the C library

A C string is a list of bytes without NUL. `CString n` is one that is stored
in a `char[n]`, so its terminator fits. The functions follow the C standard in
the "C" locale. -/

namespace Syswatch.Lib.CText

abbrev Bytes := List UInt8

/-- A statement about the bytes of a string is checked along the string, never
over all the bytes there are. -/
instance (priority := 2000) decidableBytes (p : UInt8 → Prop) [DecidablePred p] (s : Bytes) :
    Decidable (∀ b ∈ s, p b) := List.decidableBAll p s

/-- The bytes of an ASCII literal. -/
def ascii (s : String) : Bytes := s.toList.map fun c => c.toNat.toUInt8

/-- `isspace`: blank, tab, newline, vertical tab, form feed, carriage return. -/
def isSpace (b : UInt8) : Bool := b == 32 || (9 ≤ b && b ≤ 13)

def isDigit (b : UInt8) : Bool := 48 ≤ b && b ≤ 57

def isAlpha (b : UInt8) : Bool := (65 ≤ b && b ≤ 90) || (97 ≤ b && b ≤ 122)

/-- The C string at the start of a piece of memory: what stands before its first NUL. -/
def cstr (memory : Bytes) : Bytes := memory.takeWhile (· != 0)

theorem zero_notMem_cstr (memory : Bytes) : (0 : UInt8) ∉ cstr memory := by
  intro h
  have := List.mem_takeWhile_imp h
  simp at this

theorem cstr_of_noNul {s : Bytes} (h : (0 : UInt8) ∉ s) : cstr s = s := by
  apply List.takeWhile_eq_self_iff.mpr
  intro b hb
  have : b ≠ 0 := fun he => h (he ▸ hb)
  simpa using this

/-- The string ends at the first NUL, whatever stands behind it. -/
theorem cstr_append_nul {s : Bytes} (h : (0 : UInt8) ∉ s) (rest : Bytes) :
    cstr (s ++ 0 :: rest) = s := by
  unfold cstr
  rw [List.takeWhile_append_of_pos]
  · simp
  · intro b hb
    have : b ≠ 0 := fun he => h (he ▸ hb)
    simpa using this

/-! ## Strings in arrays of fixed size -/

/-- The string held by a `char[n]`. -/
structure CString (n : Nat) where
  bytes : Bytes
  noNul : (0 : UInt8) ∉ bytes
  fits : bytes.length < n
  deriving DecidableEq

/-- `snprintf(dst, n, "%s", s)`: what fits of `s`, always terminated. -/
def CString.ofBytes (n : Nat) [NeZero n] (s : Bytes) : CString n where
  bytes := (cstr s).take (n - 1)
  noNul h := zero_notMem_cstr s (List.mem_of_mem_take h)
  fits := by have := NeZero.pos n; simp; omega

def CString.empty (n : Nat) [NeZero n] : CString n := ⟨[], by simp, NeZero.pos n⟩

/-- A string that fits is copied whole. -/
theorem CString.ofBytes_bytes {n : Nat} [NeZero n] {s : Bytes} (h0 : (0 : UInt8) ∉ s)
    (h : s.length < n) : (CString.ofBytes n s).bytes = s := by
  simp only [CString.ofBytes, cstr_of_noNul h0]
  exact List.take_of_length_le (by omega)

/-- A `char[n]` as memory. -/
structure Buffer (n : Nat) where
  bytes : Bytes
  size : bytes.length = n

/-- `memcpy(dst, src, len)` into the start of the array; `src` is the memory
behind a pointer, one byte for each offset. -/
def Buffer.memcpy {n : Nat} (dst : Buffer n) (src : Nat → UInt8) (len : Nat) : Buffer n where
  bytes := ((List.range len).map src ++ dst.bytes.drop len).take n
  size := by simp [dst.size]; omega

/-- `dst[i] = b`. -/
def Buffer.store {n : Nat} (dst : Buffer n) (i : Nat) (b : UInt8) : Buffer n where
  bytes := dst.bytes.set i b
  size := by simp [dst.size]

/-- The memory behind a pointer to a C string. -/
def pointer (s : Bytes) : Nat → UInt8 := fun i => s.getD i 0

instance {n : Nat} : DecidableEq (Buffer n) := fun a b =>
  decidable_of_iff (a.bytes = b.bytes) ⟨fun h => by cases a; cases b; cases h; rfl, fun h => h ▸ rfl⟩

theorem Buffer.ext {n : Nat} {a b : Buffer n} (h : a.bytes = b.bytes) : a = b := by
  cases a; cases b; cases h; rfl

/-- After `memset(buf, 0, n)`. -/
def Buffer.zero (n : Nat) : Buffer n := ⟨List.replicate n 0, List.length_replicate ..⟩

/-- The string in the array. -/
def Buffer.text {n : Nat} (b : Buffer n) : Bytes := cstr b.bytes

/-- The last byte is NUL, so that whatever stands before it is a string. -/
def Buffer.Terminated {n : Nat} (b : Buffer n) : Prop := b.bytes.getLast? = some 0

instance {n : Nat} (b : Buffer n) : Decidable b.Terminated :=
  inferInstanceAs (Decidable (_ = some (0 : UInt8)))

/-- `strncpy(dst, src, count)`: the string, cut to `count` bytes or filled up
with NUL to as many. -/
def Buffer.strncpy {n : Nat} (dst : Buffer n) (src : Bytes) (count : Nat) : Buffer n where
  bytes := ((cstr src).take count ++ List.replicate (count - (cstr src).length) 0 ++
    dst.bytes.drop count).take n
  size := by simp [dst.size]; omega

/-- A string in an array that was all NUL. -/
def Buffer.ofText (n : Nat) (s : Bytes) : Buffer n where
  bytes := (s ++ List.replicate (n - s.length) 0).take n
  size := by simp; omega

theorem Buffer.Terminated.drop {n : Nat} {b : Buffer n} (h : b.Terminated) :
    b.bytes.drop (n - 1) = [0] := by
  obtain ⟨front, hf⟩ := List.getLast?_eq_some_iff.mp h
  have hlen : front.length = n - 1 := by
    have := b.size
    rw [hf, List.length_append, List.length_singleton] at this
    omega
  rw [hf, ← hlen, List.drop_left]

theorem Buffer.Terminated.pos {n : Nat} {b : Buffer n} (h : b.Terminated) : 0 < n := by
  have := b.size
  cases n with
  | zero => rw [Terminated, List.length_eq_zero_iff.mp this] at h; cases h
  | succ n => exact Nat.succ_pos n

/-- Copying to all but the last byte. -/
theorem Buffer.strncpy_bytes {n : Nat} {dst : Buffer n} (h : dst.Terminated) (src : Bytes) :
    (dst.strncpy src (n - 1)).bytes =
      (cstr src).take (n - 1) ++ List.replicate (n - (cstr src).length) 0 ++
        (if n ≤ (cstr src).length then [0] else []) := by
  have hn := h.pos
  simp only [strncpy, h.drop]
  rw [List.take_of_length_le (by simp; omega)]
  split
  · rw [show n - 1 - (cstr src).length = 0 by omega, show n - (cstr src).length = 0 by omega]
  · rw [show n - (cstr src).length = n - 1 - (cstr src).length + 1 by omega,
      List.replicate_succ']
    simp

theorem Buffer.Terminated.strncpy {n : Nat} {dst : Buffer n} (h : dst.Terminated) (src : Bytes) :
    (dst.strncpy src (n - 1)).Terminated := by
  have hn := h.pos
  rw [Terminated, strncpy_bytes h]
  split
  · simp
  · rw [List.append_nil, List.getLast?_append, List.getLast?_replicate, if_neg (by omega)]
    rfl

/-- The copy is the string, shortened to what fits. -/
theorem Buffer.text_strncpy {n : Nat} {dst : Buffer n} (h : dst.Terminated) (src : Bytes) :
    (dst.strncpy src (n - 1)).text = (cstr src).take (n - 1) := by
  have h0 : (0 : UInt8) ∉ (cstr src).take (n - 1) := fun hm =>
    zero_notMem_cstr src (List.mem_of_mem_take hm)
  rw [text, strncpy_bytes h, List.append_assoc]
  split
  · rw [show n - (cstr src).length = 0 by omega]
    exact cstr_append_nul h0 []
  · rw [List.append_nil, show n - (cstr src).length = n - (cstr src).length - 1 + 1 by omega,
      List.replicate_succ]
    exact cstr_append_nul h0 _

theorem Buffer.ofText_bytes {n : Nat} {s : Bytes} (hfit : s.length < n) :
    (Buffer.ofText n s).bytes = s ++ List.replicate (n - s.length) 0 :=
  List.take_of_length_le (by simp; omega)

/-- A string that fits leaves nothing of what was there. -/
theorem Buffer.strncpy_fits {n : Nat} {dst : Buffer n} (h : dst.Terminated) {src : Bytes}
    (h0 : (0 : UInt8) ∉ src) (hfit : src.length < n) :
    dst.strncpy src (n - 1) = Buffer.ofText n src := by
  apply Buffer.ext
  rw [strncpy_bytes h, cstr_of_noNul h0, if_neg (by omega), List.take_of_length_le (by omega),
    ofText_bytes hfit, List.append_nil]

theorem Buffer.Terminated.text_length {n : Nat} {b : Buffer n} (h : b.Terminated) :
    b.text.length < n := by
  obtain ⟨front, hf⟩ := List.getLast?_eq_some_iff.mp h
  have hlen := b.size
  rw [hf, List.length_append, List.length_singleton] at hlen
  have hle : b.text.length ≤ front.length := by
    rw [text, hf, cstr, List.takeWhile_append]
    split
    · simp
    · exact (List.takeWhile_sublist _).length_le
  omega

/-- A copy of `len` bytes and a terminator behind them: the array starts with both. -/
theorem Buffer.copy_bytes {n : Nat} (dst : Buffer n) (src : Nat → UInt8) {len : Nat}
    (h : len < n) : ((dst.memcpy src len).store len 0).bytes =
      (List.range len).map src ++ 0 :: dst.bytes.drop (len + 1) := by
  have hd : dst.bytes.drop len ≠ [] := by
    intro he
    have := congrArg List.length he
    rw [List.length_drop, dst.size] at this
    simp at this
    omega
  simp only [Buffer.store, Buffer.memcpy]
  rw [List.take_of_length_le (by simp [dst.size]; omega),
    List.set_append_right _ _ (by simp)]
  obtain ⟨b, rest, hb⟩ := List.exists_cons_of_ne_nil hd
  have hr : rest = dst.bytes.drop (len + 1) := by
    rw [← List.tail_drop, hb]; rfl
  simp [hb, hr]

/-! ## Formatted output into a fixed array -/

/-- `snprintf(dst, n, ..)` of the formatted text `s`. -/
def snprintf (n : Nat) (s : Bytes) : Bytes := s.take (n - 1)

theorem snprintf_fits {n : Nat} {s : Bytes} (h : s.length < n) : snprintf n s = s :=
  List.take_of_length_le (by omega)

/-- A `char[n]` filled by `pos += snprintf(buf + pos, n - pos, ..)`: `text` is
the string it holds and `pos` the sum of the values `snprintf` returned, which
count what would have been written. -/
structure Fill (n : Nat) where
  text : Bytes
  pos : Nat
  deriving DecidableEq

def Fill.start (n : Nat) : Fill n := ⟨[], 0⟩

/-- One `snprintf(buf + pos, n - pos, ..)`. Past the end the pointer is out of
bounds and the unsigned difference wraps, so that there is no result. -/
def Fill.printf {n : Nat} (w : Fill n) (s : Bytes) : Option (Fill n) :=
  if w.pos ≤ n then some ⟨w.text ++ s.take (n - 1 - w.pos), w.pos + s.length⟩ else none

/-- Nothing has been truncated yet. -/
def Fill.Whole {n : Nat} (w : Fill n) : Prop := w.pos = w.text.length ∧ w.pos < n

theorem Fill.Whole.printf_next {n : Nat} {w : Fill n} (hw : w.Whole) {s : Bytes}
    (h : w.text.length + s.length < n) :
    ∃ w', w.printf s = some w' ∧ w'.Whole ∧ w'.text = w.text ++ s := by
  obtain ⟨hp, hn⟩ := hw
  refine ⟨⟨w.text ++ s, w.text.length + s.length⟩, ?_, ⟨by simp, h⟩, rfl⟩
  rw [Fill.printf, if_pos hn.le, hp, List.take_of_length_le (by omega)]

theorem Fill.Whole.printf_nil {n : Nat} {w : Fill n} (hw : w.Whole) : w.printf [] = some w := by
  rw [Fill.printf, if_pos hw.2.le]
  simp

/-- The string has its terminator, and `pos` counts at least what it holds. -/
def Fill.Bounded {n : Nat} (w : Fill n) : Prop := w.text.length < n ∧ w.text.length ≤ w.pos

/-- Printing only appends, and the terminator always fits. -/
theorem Fill.Bounded.printf {n : Nat} {w w' : Fill n} {s : Bytes} (hw : w.Bounded)
    (h : w.printf s = some w') : w'.Bounded ∧ w.text <+: w'.text := by
  obtain ⟨hlt, hle⟩ := hw
  unfold Fill.printf at h
  split at h
  · rw [Option.some.injEq] at h
    subst h
    refine ⟨⟨?_, ?_⟩, List.prefix_append _ _⟩ <;> simp only [List.length_append, List.length_take] <;>
      omega
  · cases h

/-! ## Reading lines and tokens -/

/-- The successive results of `fgets` with a buffer of `cap` bytes: every line
with its newline, a line of `cap - 1` or more bytes in pieces. -/
def fgetsAll (cap : Nat) : Bytes → Bytes → List Bytes
  | acc, [] => if acc = [] then [] else [acc]
  | acc, c :: cs =>
    if c = 10 ∨ cap ≤ acc.length + 2 then (acc ++ [c]) :: fgetsAll cap [] cs
    else fgetsAll cap (acc ++ [c]) cs

/-- The tokens `strtok(s, delims)` returns one after the other. -/
def strtokAll (delim : UInt8 → Bool) : Bytes → Bytes → List Bytes
  | acc, [] => if acc = [] then [] else [acc]
  | acc, c :: cs =>
    if delim c then (if acc = [] then strtokAll delim [] cs else acc :: strtokAll delim [] cs)
    else strtokAll delim (acc ++ [c]) cs

/-- The text before the first `c`, if there is one (`strchr`, then a NUL in its place). -/
def cutAt (c : UInt8) (s : Bytes) : Option Bytes :=
  if c ∈ s then some (s.takeWhile (· != c)) else none

def digitsValue (ds : Bytes) : Nat := ds.foldl (fun v d => 10 * v + (d.toNat - 48)) 0

/-- What `strtoull(s, &end, 10)` gives: the value, the text at `end`, and
whether `errno` was set. Without digits `end` is `s`. -/
structure Strtoull where
  value : UInt64
  rest : Bytes
  converted : Bool
  range : Bool

/-- `strtoull(s, &end, 10)`: white space, an optional sign, digits. A minus sign
negates the value in unsigned arithmetic; a value of 2^64 or more is clamped. -/
def strtoull (s : Bytes) : Strtoull :=
  let body := s.dropWhile isSpace
  let negative := body.head? = some 45
  let unsigned := if body.head? = some 45 ∨ body.head? = some 43 then body.tail else body
  let digits := unsigned.takeWhile isDigit
  let rest := unsigned.dropWhile isDigit
  if digits = [] then ⟨0, s, false, false⟩
  else if 2 ^ 64 ≤ digitsValue digits then ⟨UInt64.ofNat (2 ^ 64 - 1), rest, true, true⟩
  else
    let v := UInt64.ofNat (digitsValue digits)
    ⟨if negative then 0 - v else v, rest, true, false⟩

/-- What `strtol(s, &end, 10)` gives. -/
structure Strtol where
  value : Int
  rest : Bytes
  converted : Bool
  range : Bool

/-- `strtol(s, &end, 10)` with a `long` of 64 bits: a value out of its range is
clamped and sets `errno`. -/
def strtol (s : Bytes) : Strtol :=
  let body := s.dropWhile isSpace
  let negative := body.head? = some 45
  let unsigned := if body.head? = some 45 ∨ body.head? = some 43 then body.tail else body
  let digits := unsigned.takeWhile isDigit
  let rest := unsigned.dropWhile isDigit
  if digits = [] then ⟨0, s, false, false⟩
  else
    let v : Int := if negative then -digitsValue digits else digitsValue digits
    ⟨max (-2 ^ 63) (min (2 ^ 63 - 1) v), rest, true, v < -2 ^ 63 || 2 ^ 63 ≤ v⟩

/-- The directives of a `sscanf` format: ordinary characters, `%d` and `%c`. -/
inductive Directive where
  | chars (s : Bytes)
  | int
  | char

/-- The number of conversions `sscanf` makes; it stops at the first directive
that fails. `%d` reads what `strtol` reads. -/
def sscanf : List Directive → Bytes → Nat
  | [], _ => 0
  | .chars t :: fmt, s => if t <+: s then sscanf fmt (s.drop t.length) else 0
  | .int :: fmt, s => if (strtol s).converted then sscanf fmt (strtol s).rest + 1 else 0
  | .char :: fmt, s =>
    match s with
    | [] => 0
    | _ :: rest => sscanf fmt rest + 1

/-- What `strtol` reads: white space, signs and digits. -/
theorem strtol_reads {s : Bytes} (h : (strtol s).converted = true) :
    ∃ used, s = used ++ (strtol s).rest ∧
      ∀ b ∈ used, isSpace b = true ∨ isDigit b = true ∨ b = 43 ∨ b = 45 := by
  let body := s.dropWhile isSpace
  let unsigned := if body.head? = some 45 ∨ body.head? = some 43 then body.tail else body
  have hrest : (strtol s).rest = unsigned.dropWhile isDigit := by
    by_cases hd : unsigned.takeWhile isDigit = []
    · simp only [strtol] at h
      rw [if_pos hd] at h
      cases h
    · simp only [strtol]
      rw [if_neg hd]
  obtain ⟨sg, hsg, hsign⟩ : ∃ sg, body = sg ++ unsigned ∧ ∀ b ∈ sg, b = 43 ∨ b = 45 := by
    by_cases hs : body.head? = some 45 ∨ body.head? = some 43
    · obtain ⟨b, hb, tl, htl⟩ : ∃ b, (b = 43 ∨ b = 45) ∧ ∃ tl, body = b :: tl := by
        rcases hs with hs | hs
        · exact ⟨45, .inr rfl, List.head?_eq_some_iff.mp hs⟩
        · exact ⟨43, .inl rfl, List.head?_eq_some_iff.mp hs⟩
      refine ⟨[b], ?_, by simpa using hb⟩
      simp only [unsigned, if_pos hs, htl]
      rfl
    · exact ⟨[], by simp [unsigned, hs], by simp⟩
  refine ⟨s.takeWhile isSpace ++ sg ++ unsigned.takeWhile isDigit, ?_, ?_⟩
  · rw [hrest, List.append_assoc, List.takeWhile_append_dropWhile, List.append_assoc, ← hsg,
      List.takeWhile_append_dropWhile]
  · intro b hb
    simp only [List.mem_append] at hb
    rcases hb with (hb | hb) | hb
    · exact .inl (List.mem_takeWhile_imp hb)
    · exact .inr (.inr (hsign b hb))
    · exact .inr (.inl (List.mem_takeWhile_imp hb))

/-! ## Decimal output -/

/-- `%llu` and the digits of `%.0f`. -/
def decimal (n : Nat) : Bytes := (Nat.toDigits 10 n).map fun c => c.toNat.toUInt8

theorem decimal_ne_nil (n : Nat) : decimal n ≠ [] := by
  simp [decimal, Nat.toDigits_ne_nil]

theorem decimal_length_le_iff {n k : Nat} (hk : 0 < k) : (decimal n).length ≤ k ↔ n < 10 ^ k := by
  rw [decimal, List.length_map]
  exact Nat.length_toDigits_le_iff (by decide) hk

theorem isDigit_of_char {c : Char} (h : c.isDigit = true) : isDigit c.toNat.toUInt8 = true := by
  have hb : 48 ≤ c.toNat ∧ c.toNat ≤ 57 := Char.isDigit_iff_toNat.mp h
  have hv : c.toNat.toUInt8.toNat = c.toNat := by
    change (UInt8.ofNat c.toNat).toNat = c.toNat
    rw [UInt8.toNat_ofNat']
    omega
  simp [isDigit, UInt8.le_iff_toNat_le, hv, hb]

theorem isDigit_of_mem_decimal {n : Nat} {b : UInt8} (h : b ∈ decimal n) : isDigit b = true := by
  obtain ⟨c, hc, rfl⟩ := List.mem_map.mp h
  exact isDigit_of_char (Nat.isDigit_of_mem_toDigits (by decide) (by decide) hc)

/-- A number other than 0 does not start with the digit 0. -/
theorem decimal_head_ne_zero {n : Nat} (hn : 0 < n) : (decimal n).head? ≠ some 48 := by
  induction n using Nat.strongRecOn with
  | ind n ih =>
    by_cases h : n < 10
    · interval_cases n <;> decide
    · have hq := ih (n / 10) (by omega) (by omega)
      rw [decimal, Nat.toDigits_of_base_le (by decide) (by omega), List.map_append,
        List.head?_append]
      rw [decimal] at hq
      obtain ⟨c, hc⟩ : ∃ c, ((Nat.toDigits 10 (n / 10)).map fun c => c.toNat.toUInt8).head? = some c :=
        Option.isSome_iff_exists.mp (by
          rw [List.isSome_head?]; simp [Nat.toDigits_ne_nil])
      rw [hc] at hq ⊢
      simpa using hq

theorem digitsValue_append (ds : Bytes) (d : UInt8) :
    digitsValue (ds ++ [d]) = 10 * digitsValue ds + (d.toNat - 48) := by
  simp [digitsValue]

theorem digitChar_value : ∀ d < 10, (Nat.digitChar d).toNat.toUInt8.toNat - 48 = d := by decide

theorem digitsValue_decimal (n : Nat) : digitsValue (decimal n) = n := by
  induction n using Nat.strongRecOn with
  | ind n ih =>
    by_cases h : n < 10
    · rw [decimal, Nat.toDigits_of_lt_base h]
      simpa [digitsValue] using digitChar_value n h
    · have hq := ih (n / 10) (by omega)
      rw [decimal, Nat.toDigits_of_base_le (by decide) (by omega), List.map_append, List.map_singleton,
        digitsValue_append, digitChar_value _ (Nat.mod_lt n (by decide))]
      rw [decimal] at hq
      rw [hq]
      omega

theorem not_isSpace_of_isDigit {b : UInt8} (h : isDigit b = true) : isSpace b = false := by
  have hr : 48 ≤ b.toNat ∧ b.toNat ≤ 57 := by simpa [isDigit, UInt8.le_iff_toNat_le] using h
  have h32 : b ≠ 32 := by rintro rfl; simp at hr
  have h13 : ¬b ≤ 13 := by rw [UInt8.le_iff_toNat_le]; simp; omega
  simp [isSpace, h32, h13]

/-! ## Reading digits -/

theorem takeWhile_append_stop {p : UInt8 → Bool} {t : Bytes} (ht : ∀ b ∈ t.head?, p b = false)
    (s : Bytes) : (s ++ t).takeWhile p = s.takeWhile p ∧ (s ++ t).dropWhile p = s.dropWhile p ++ t := by
  induction s with
  | nil =>
    cases t with
    | nil => exact ⟨rfl, rfl⟩
    | cons b t =>
      have hb : ¬ p b = true := by simp [ht b rfl]
      exact ⟨List.takeWhile_cons_of_neg hb, List.dropWhile_cons_of_neg hb⟩
  | cons c s ih =>
    by_cases hc : p c = true
    · rw [List.cons_append, List.takeWhile_cons_of_pos hc, List.takeWhile_cons_of_pos hc,
        List.dropWhile_cons_of_pos hc, List.dropWhile_cons_of_pos hc, ih.1, ih.2]
      exact ⟨rfl, rfl⟩
    · rw [List.cons_append, List.takeWhile_cons_of_neg hc, List.takeWhile_cons_of_neg hc,
        List.dropWhile_cons_of_neg hc, List.dropWhile_cons_of_neg hc]
      exact ⟨rfl, rfl⟩

/-- Where `strtoull` and `strtol` look for digits. -/
def unsignedPart (s : Bytes) : Bytes :=
  let body := s.dropWhile isSpace
  if body.head? = some 45 ∨ body.head? = some 43 then body.tail else body

theorem body_ne_nil {s : Bytes} (h : (unsignedPart s).takeWhile isDigit ≠ []) :
    s.dropWhile isSpace ≠ [] := by
  intro hnil
  rw [unsignedPart, hnil] at h
  exact h rfl

/-- What follows the digits does not change where they are. -/
theorem unsignedPart_append {s : Bytes} (h : (unsignedPart s).takeWhile isDigit ≠ []) (t : Bytes) :
    (s ++ t).dropWhile isSpace = s.dropWhile isSpace ++ t ∧
      unsignedPart (s ++ t) = unsignedPart s ++ t := by
  have hbody := body_ne_nil h
  have hdrop : (s ++ t).dropWhile isSpace = s.dropWhile isSpace ++ t := by
    rw [List.dropWhile_append, if_neg (by simpa using hbody)]
  refine ⟨hdrop, ?_⟩
  rw [unsignedPart, unsignedPart, hdrop, List.head?_append_of_ne_nil _ hbody]
  split
  · exact List.tail_append_of_ne_nil hbody
  · rfl

theorem strtoull_eq (s : Bytes) : strtoull s =
    if (unsignedPart s).takeWhile isDigit = [] then ⟨0, s, false, false⟩
    else if 2 ^ 64 ≤ digitsValue ((unsignedPart s).takeWhile isDigit) then
      ⟨UInt64.ofNat (2 ^ 64 - 1), (unsignedPart s).dropWhile isDigit, true, true⟩
    else
      let v := UInt64.ofNat (digitsValue ((unsignedPart s).takeWhile isDigit))
      ⟨if (s.dropWhile isSpace).head? = some 45 then 0 - v else v,
        (unsignedPart s).dropWhile isDigit, true, false⟩ := rfl

theorem strtol_eq (s : Bytes) : strtol s =
    if (unsignedPart s).takeWhile isDigit = [] then ⟨0, s, false, false⟩
    else
      let v : Int :=
        if (s.dropWhile isSpace).head? = some 45 then
          -digitsValue ((unsignedPart s).takeWhile isDigit)
        else digitsValue ((unsignedPart s).takeWhile isDigit)
      ⟨max (-2 ^ 63) (min (2 ^ 63 - 1) v), (unsignedPart s).dropWhile isDigit, true,
        v < -2 ^ 63 || 2 ^ 63 ≤ v⟩ := rfl

/-- Text that does not go on with a digit is left over. -/
theorem strtol_append {s t : Bytes} (hs : (strtol s).converted = true)
    (ht : ∀ b ∈ t.head?, isDigit b = false) :
    strtol (s ++ t) = { strtol s with rest := (strtol s).rest ++ t } := by
  by_cases hdigits : (unsignedPart s).takeWhile isDigit = []
  · rw [strtol_eq, if_pos hdigits] at hs
    cases hs
  · obtain ⟨hbody, hunsigned⟩ := unsignedPart_append hdigits t
    obtain ⟨htake, hdrop⟩ := takeWhile_append_stop ht (unsignedPart s)
    have hhead : ((s ++ t).dropWhile isSpace).head? = (s.dropWhile isSpace).head? := by
      rw [hbody, List.head?_append_of_ne_nil _ (body_ne_nil hdigits)]
    rw [strtol_eq, strtol_eq s, hunsigned, htake, hdrop, hhead, if_neg hdigits, if_neg hdigits]

theorem strtoull_append {s t : Bytes} (hs : (strtoull s).converted = true)
    (ht : ∀ b ∈ t.head?, isDigit b = false) :
    strtoull (s ++ t) = { strtoull s with rest := (strtoull s).rest ++ t } := by
  by_cases hdigits : (unsignedPart s).takeWhile isDigit = []
  · rw [strtoull_eq, if_pos hdigits] at hs
    cases hs
  · obtain ⟨hbody, hunsigned⟩ := unsignedPart_append hdigits t
    obtain ⟨htake, hdrop⟩ := takeWhile_append_stop ht (unsignedPart s)
    have hhead : ((s ++ t).dropWhile isSpace).head? = (s.dropWhile isSpace).head? := by
      rw [hbody, List.head?_append_of_ne_nil _ (body_ne_nil hdigits)]
    rw [strtoull_eq, strtoull_eq s, hunsigned, htake, hdrop, hhead, if_neg hdigits, if_neg hdigits]
    split <;> rfl

/-- Digits alone are neither white space nor a sign. -/
theorem digits_scan {ds : Bytes} (hne : ds ≠ []) (hds : ∀ b ∈ ds, isDigit b = true) :
    ds.dropWhile isSpace = ds ∧ ds.head? ≠ some 45 ∧ unsignedPart ds = ds ∧
      ds.takeWhile isDigit = ds ∧ ds.dropWhile isDigit = [] := by
  obtain ⟨c, cs, rfl⟩ := List.exists_cons_of_ne_nil hne
  have hc : isDigit c = true := hds c (by simp)
  have hspace : (c :: cs).dropWhile isSpace = c :: cs :=
    List.dropWhile_cons_of_neg (by simp [not_isSpace_of_isDigit hc])
  have hsign (b : UInt8) (hb : isDigit b = false) : (c :: cs).head? ≠ some b := by
    intro h
    cases h
    rw [hc] at hb
    cases hb
  refine ⟨hspace, hsign 45 rfl, ?_, List.takeWhile_eq_self_iff.mpr hds,
    List.dropWhile_eq_nil_iff.mpr hds⟩
  rw [unsignedPart, hspace]
  exact if_neg (not_or.mpr ⟨hsign 45 rfl, hsign 43 rfl⟩)

theorem strtoull_digits {ds : Bytes} (hne : ds ≠ []) (hds : ∀ b ∈ ds, isDigit b = true)
    (h : digitsValue ds < 2 ^ 64) : strtoull ds = ⟨UInt64.ofNat (digitsValue ds), [], true, false⟩ := by
  obtain ⟨hspace, hsign, hunsigned, htake, hdrop⟩ := digits_scan hne hds
  rw [strtoull_eq, hunsigned, htake, hdrop, hspace, if_neg hne, if_neg (not_le.mpr h)]
  dsimp only
  rw [if_neg hsign]

/-- A number that was printed is read back. -/
theorem strtol_decimal {n : Nat} (h : n < 2 ^ 63) :
    strtol (decimal n) = ⟨n, [], true, false⟩ := by
  obtain ⟨hspace, hsign, hunsigned, htake, hdrop⟩ :=
    digits_scan (decimal_ne_nil n) fun b hb => isDigit_of_mem_decimal hb
  have hclamp : max (-2 ^ 63) (min (2 ^ 63 - 1) (n : Int)) = n := by omega
  have hrange : ((decide ((n : Int) < -2 ^ 63)) || decide (2 ^ 63 ≤ (n : Int))) = false := by
    rw [Bool.or_eq_false_iff, decide_eq_false_iff_not, decide_eq_false_iff_not]
    omega
  rw [strtol_eq, hunsigned, htake, hdrop, hspace, if_neg (decimal_ne_nil n), if_neg hsign,
    digitsValue_decimal]
  simp only [hclamp, hrange]

/-! ## Texts that are read back line by line and word by word -/

theorem fgetsAll_line {cap : Nat} {s : Bytes} (hs : (10 : UInt8) ∉ s) (rest : Bytes) {acc : Bytes}
    (h : acc.length + s.length + 1 < cap) :
    fgetsAll cap acc (s ++ 10 :: rest) = (acc ++ s ++ [10]) :: fgetsAll cap [] rest := by
  induction s generalizing acc with
  | nil => simp [fgetsAll]
  | cons c s ih =>
    rw [List.mem_cons, not_or] at hs
    rw [List.length_cons] at h
    have hmore : ¬(c = 10 ∨ cap ≤ acc.length + 2) := by
      rintro (rfl | hcap)
      · exact hs.1 rfl
      · omega
    rw [List.cons_append, fgetsAll, if_neg hmore, ih hs.2 (by simp; omega)]
    simp

/-- No piece holds text of two lines. -/
theorem fgetsAll_split (cap : Nat) (acc s rest : Bytes) :
    fgetsAll cap acc (s ++ 10 :: rest) = fgetsAll cap acc (s ++ [10]) ++ fgetsAll cap [] rest := by
  induction s generalizing acc with
  | nil => simp [fgetsAll]
  | cons c s ih =>
    rw [List.cons_append, List.cons_append, fgetsAll, fgetsAll]
    split
    · rw [ih, List.cons_append]
    · exact ih _

/-- Text without a newline that fits comes in one piece. -/
theorem fgetsAll_short {cap : Nat} {s : Bytes} (hs : (10 : UInt8) ∉ s) {acc : Bytes}
    (hne : acc ++ s ≠ []) (h : acc.length + s.length < cap) : fgetsAll cap acc s = [acc ++ s] := by
  induction s generalizing acc with
  | nil =>
    rw [List.append_nil] at hne ⊢
    exact if_neg hne
  | cons c s ih =>
    rw [List.mem_cons, not_or] at hs
    rw [List.length_cons] at h
    rw [fgetsAll]
    split
    · rename_i hend
      have hcap := hend.resolve_left (Ne.symm hs.1)
      rw [List.length_eq_zero_iff.mp (by omega : s.length = 0)]
      rfl
    · rw [ih hs.2 (by simp) (by simp; omega)]
      simp

/-- The pieces are the whole text. -/
theorem fgetsAll_flatten (cap : Nat) (acc s : Bytes) : (fgetsAll cap acc s).flatten = acc ++ s := by
  induction s generalizing acc with
  | nil =>
    rw [fgetsAll]
    split
    · next hacc => rw [hacc]; rfl
    · simp
  | cons c s ih =>
    rw [fgetsAll]
    split
    · rw [List.flatten_cons, ih]
      simp
    · rw [ih]
      simp

/-- Lines that fit the buffer are returned one by one. -/
theorem fgetsAll_lines {cap : Nat} {lines : List Bytes}
    (h : ∀ l ∈ lines, (10 : UInt8) ∉ l ∧ l.length + 1 < cap) :
    fgetsAll cap [] (lines.flatMap (· ++ [10])) = lines.map (· ++ [10]) := by
  induction lines with
  | nil => rfl
  | cons l lines ih =>
    obtain ⟨hn, hl⟩ := h l (by simp)
    rw [List.flatMap_cons, List.append_assoc, List.singleton_append, fgetsAll_line hn _ (by simpa),
      ih fun l' hl' => h l' (by simp [hl'])]
    rfl

/-- The lines of a text, each with its newline. -/
def textLines : Bytes → Bytes → List Bytes
  | acc, [] => if acc = [] then [] else [acc]
  | acc, c :: cs => if c = 10 then (acc ++ [c]) :: textLines [] cs else textLines (acc ++ [c]) cs

/-- The length of a line without its newline. -/
def lineLength (line : Bytes) : Nat := (line.takeWhile (· != 10)).length

theorem textLines_head {acc : Bytes} (h : acc ≠ []) (s : Bytes) :
    ∃ l rest, textLines acc s = l :: rest ∧ acc <+: l := by
  induction s generalizing acc with
  | nil => exact ⟨acc, [], if_neg h, List.prefix_rfl⟩
  | cons c s ih =>
    rw [textLines]
    split
    · exact ⟨acc ++ [c], textLines [] s, rfl, List.prefix_append _ _⟩
    · obtain ⟨l, rest, hl, hpre⟩ := ih (by simp : acc ++ [c] ≠ [])
      exact ⟨l, rest, hl, (List.prefix_append _ _).trans hpre⟩

theorem length_le_lineLength {acc l : Bytes} (hacc : (10 : UInt8) ∉ acc) (h : acc <+: l) :
    acc.length ≤ lineLength l := by
  obtain ⟨rest, rfl⟩ := h
  have hall : ∀ b ∈ acc, (b != 10) = true := fun b hb => by
    rw [bne_iff_ne]
    rintro rfl
    exact hacc hb
  rw [lineLength, List.takeWhile_append_of_pos hall, List.length_append]
  omega

/-- Where every line fits, `fgets` returns the lines. -/
theorem fgetsAll_textLines {cap : Nat} {s : Bytes} {acc : Bytes} (hacc : (10 : UInt8) ∉ acc)
    (h : ∀ l ∈ textLines acc s, lineLength l + 2 ≤ cap) : fgetsAll cap acc s = textLines acc s := by
  induction s generalizing acc with
  | nil => rfl
  | cons c s ih =>
    rw [fgetsAll, textLines]
    rw [textLines] at h
    by_cases hc : c = 10
    · rw [if_pos hc] at h
      rw [if_pos (.inl hc), if_pos hc, ih (by simp) fun l hl => h l (by simp [hl])]
    · rw [if_neg hc] at h
      have hnext : (10 : UInt8) ∉ acc ++ [c] := by simp [hacc, Ne.symm hc]
      obtain ⟨l, rest, hl, hpre⟩ := textLines_head (by simp : acc ++ [c] ≠ []) s
      have hfit := h l (by simp [hl])
      have hlen := length_le_lineLength hnext hpre
      rw [List.length_append, List.length_singleton] at hlen
      rw [if_neg (not_or.mpr ⟨hc, by omega⟩), if_neg hc, ih hnext h]

/-- A longer line comes in the pieces it is cut into. -/
theorem textLines_pieces (cap : Nat) (acc s : Bytes) :
    (textLines acc s).flatMap (fgetsAll cap []) = fgetsAll cap [] (acc ++ s) := by
  induction s generalizing acc with
  | nil =>
    rw [textLines, List.append_nil]
    split
    · next hacc => rw [hacc]; rfl
    · rw [List.flatMap_singleton]
  | cons c s ih =>
    rw [textLines]
    split
    · next hc => rw [List.flatMap_cons, ih, hc, List.nil_append, ← fgetsAll_split]
    · rw [ih, List.append_assoc, List.singleton_append]

theorem strtokAll_append {delim : UInt8 → Bool} {w : Bytes} (hw : ∀ b ∈ w, delim b = false)
    (acc rest : Bytes) : strtokAll delim acc (w ++ rest) = strtokAll delim (acc ++ w) rest := by
  induction w generalizing acc with
  | nil => simp
  | cons c w ih =>
    rw [List.cons_append, strtokAll, if_neg (by simp [hw c (by simp)]),
      ih fun b hb => hw b (by simp [hb])]
    simp

/-- Delimiters end the token in front of them, if there is one. -/
theorem strtokAll_delims {delim : UInt8 → Bool} {g : Bytes} (hne : g ≠ [])
    (hg : ∀ b ∈ g, delim b = true) (acc rest : Bytes) :
    strtokAll delim acc (g ++ rest) =
      (if acc = [] then [] else [acc]) ++ strtokAll delim [] rest := by
  induction g generalizing acc with
  | nil => exact absurd rfl hne
  | cons c g ih =>
    have hrest : strtokAll delim [] (g ++ rest) = strtokAll delim [] rest := by
      cases g with
      | nil => rfl
      | cons d g => exact ih (by simp) (fun b hb => hg b (by simp [hb])) []
    rw [List.cons_append, strtokAll, if_pos (hg c (by simp)), hrest]
    split <;> rfl

/-- Words with delimiters in front of each. -/
def spaced (ps : List (Bytes × Bytes)) : Bytes := ps.flatMap fun p => p.1 ++ p.2

theorem strtokAll_spaced {delim : UInt8 → Bool} {ps : List (Bytes × Bytes)}
    (hps : ∀ p ∈ ps, (p.1 ≠ [] ∧ ∀ b ∈ p.1, delim b = true) ∧ p.2 ≠ [] ∧ ∀ b ∈ p.2, delim b = false)
    (acc : Bytes) : strtokAll delim acc (spaced ps) =
      (if acc = [] then [] else [acc]) ++ ps.map Prod.snd := by
  induction ps generalizing acc with
  | nil => simp [spaced, strtokAll]
  | cons p ps ih =>
    obtain ⟨⟨hgap, hdelims⟩, hword, hplain⟩ := hps p (by simp)
    have ih := ih fun q hq => hps q (by simp [hq])
    rw [spaced] at ih
    rw [spaced, List.flatMap_cons, List.append_assoc, strtokAll_delims hgap hdelims,
      strtokAll_append hplain, List.nil_append, ih, if_neg hword]
    rfl

/-- Words in columns: a blank and some padding in front of each. -/
def columns (ps : List (Nat × Bytes)) : Bytes :=
  ps.flatMap fun p => 32 :: (List.replicate p.1 32 ++ p.2)

theorem columns_eq_spaced (ps : List (Nat × Bytes)) :
    columns ps = spaced (ps.map fun p => (32 :: List.replicate p.1 32, p.2)) := by
  rw [columns, spaced, List.flatMap_map]
  rfl

theorem cutAt_append {c : UInt8} {s : Bytes} (h : c ∉ s) (rest : Bytes) :
    cutAt c (s ++ c :: rest) = some s := by
  have hs : ∀ b ∈ s, (b != c) = true := fun b hb => by
    rw [bne_iff_ne]
    rintro rfl
    exact h hb
  rw [cutAt, if_pos (by simp), List.takeWhile_append_of_pos hs]
  simp

end Syswatch.Lib.CText
