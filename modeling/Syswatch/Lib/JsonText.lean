import Syswatch.Lib.CText

/-! # JSON texts over bytes

A reader for the JSON grammar in which a byte of 0x80 or more is an ordinary
string character. It is total through fuel; one more than the length of the
text is always enough. `StringText`, `Denotes`, `Members` and `Elements` say
that a text is read as a given value whatever follows it, and their rules build
the reading of a text from the readings of its parts. -/

namespace Syswatch.Lib.JsonText
open CText

/-- A JSON value. Strings are decoded, numbers keep their literal, members
their order. -/
inductive Json where
  | null
  | bool (b : Bool)
  | num (literal : Bytes)
  | str (s : Bytes)
  | arr (items : List Json)
  | obj (members : List (Bytes × Json))

/-! ## The reader -/

def isWs (b : UInt8) : Bool := b == 32 || b == 9 || b == 10 || b == 13

def skipWs (s : Bytes) : Bytes := s.dropWhile isWs

def hexVal (b : UInt8) : Option Nat :=
  if 48 ≤ b ∧ b ≤ 57 then some (b.toNat - 48)
  else if 97 ≤ b ∧ b ≤ 102 then some (b.toNat - 87)
  else if 65 ≤ b ∧ b ≤ 70 then some (b.toNat - 55)
  else none

/-- Four hexadecimal digits. -/
def hex4 : Bytes → Option (Nat × Bytes)
  | a :: b :: c :: d :: rest => do
    let a ← hexVal a
    let b ← hexVal b
    let c ← hexVal c
    let d ← hexVal d
    some (4096 * a + 256 * b + 16 * c + d, rest)
  | _ => none

/-- The UTF-8 encoding of a code point. -/
def utf8 (n : Nat) : Bytes :=
  if n < 0x80 then [n.toUInt8]
  else if n < 0x800 then [(0xC0 + n / 64).toUInt8, (0x80 + n % 64).toUInt8]
  else if n < 0x10000 then
    [(0xE0 + n / 4096).toUInt8, (0x80 + n / 64 % 64).toUInt8, (0x80 + n % 64).toUInt8]
  else [(0xF0 + n / 262144).toUInt8, (0x80 + n / 4096 % 64).toUInt8, (0x80 + n / 64 % 64).toUInt8,
    (0x80 + n % 64).toUInt8]

/-- The second half of a surrogate pair, if one follows. -/
def lowSurrogate : Bytes → Option (Nat × Bytes)
  | 92 :: 117 :: rest => (hex4 rest).filter fun r => 0xDC00 ≤ r.1 && r.1 < 0xE000
  | _ => none

/-- What follows a `\u`. -/
def unicodeEscape (s : Bytes) : Option (Bytes × Bytes) :=
  (hex4 s).map fun r =>
    match if 0xD800 ≤ r.1 ∧ r.1 < 0xDC00 then lowSurrogate r.2 else none with
    | some low => (utf8 (0x10000 + 1024 * (r.1 - 0xD800) + (low.1 - 0xDC00)), low.2)
    | none => (utf8 r.1, r.2)

/-- The escapes of one letter. -/
def simpleEscape (b : UInt8) : Option UInt8 :=
  if b = 34 then some 34
  else if b = 92 then some 92
  else if b = 47 then some 47
  else if b = 98 then some 8
  else if b = 102 then some 12
  else if b = 110 then some 10
  else if b = 114 then some 13
  else if b = 116 then some 9
  else none

/-- What follows a backslash. -/
def escape : Bytes → Option (Bytes × Bytes)
  | [] => none
  | e :: rest =>
    match simpleEscape e with
    | some b => some ([b], rest)
    | none => if e = 117 then unicodeEscape rest else none

/-- The characters of a string and its closing quote. -/
def string : Nat → Bytes → Option (Bytes × Bytes)
  | 0, _ => none
  | _ + 1, [] => none
  | fuel + 1, c :: rest =>
    if c = 34 then some ([], rest)
    else if c = 92 then
      (escape rest).bind fun e => (string fuel e.2).map fun r => (e.1 ++ r.1, r.2)
    else if c < 32 then none
    else (string fuel rest).map fun r => (c :: r.1, r.2)

def digits (s : Bytes) : Bytes × Bytes := (s.takeWhile isDigit, s.dropWhile isDigit)

/-- A sign, or nothing. -/
def sign (allowed : UInt8 → Bool) : Bytes → Bytes × Bytes
  | c :: rest => if allowed c then ([c], rest) else ([], c :: rest)
  | [] => ([], [])

/-- The part of a number behind a mark: `.` and digits, or `e`, a sign and digits. -/
def numberPart (mark signs : UInt8 → Bool) : Bytes → Option (Bytes × Bytes)
  | c :: rest =>
    if mark c then
      let sg := sign signs rest
      let ds := digits sg.2
      if ds.1 = [] then none else some (c :: sg.1 ++ ds.1, ds.2)
    else some ([], c :: rest)
  | [] => some ([], [])

/-- A number: a minus sign, digits without a leading zero, fraction, exponent. -/
def number (s : Bytes) : Option (Bytes × Bytes) :=
  let sg := sign (· == 45) s
  let ds := digits sg.2
  if ds.1 = [] ∨ (ds.1.head? = some 48 ∧ ds.1 ≠ [48]) then none
  else
    (numberPart (· == 46) (fun _ => false) ds.2).bind fun fr =>
      (numberPart (fun c => c == 101 || c == 69) (fun c => c == 43 || c == 45) fr.2).map fun ex =>
        (sg.1 ++ ds.1 ++ fr.1 ++ ex.1, ex.2)

/-- A literal name. -/
def literal (name : Bytes) (v : Json) (s : Bytes) : Option (Json × Bytes) :=
  if s.take name.length = name then some (v, s.drop name.length) else none

mutual

def value : Nat → Bytes → Option (Json × Bytes)
  | 0, _ => none
  | fuel + 1, s =>
    match skipWs s with
    | [] => none
    | c :: rest =>
      if c = 34 then (string fuel rest).map fun r => (.str r.1, r.2)
      else if c = 123 then
        if (skipWs rest).head? = some 125 then some (.obj [], (skipWs rest).tail)
        else (members fuel rest).map fun r => (.obj r.1, r.2)
      else if c = 91 then
        if (skipWs rest).head? = some 93 then some (.arr [], (skipWs rest).tail)
        else (elements fuel rest).map fun r => (.arr r.1, r.2)
      else if c = 116 then literal (ascii "true") (.bool true) (c :: rest)
      else if c = 102 then literal (ascii "false") (.bool false) (c :: rest)
      else if c = 110 then literal (ascii "null") .null (c :: rest)
      else (number (c :: rest)).map fun r => (.num r.1, r.2)

def members : Nat → Bytes → Option (List (Bytes × Json) × Bytes)
  | 0, _ => none
  | fuel + 1, s =>
    match skipWs s with
    | 34 :: rest =>
      (string fuel rest).bind fun k =>
        match skipWs k.2 with
        | 58 :: rest =>
          (value fuel rest).bind fun v =>
            match skipWs v.2 with
            | 44 :: rest => (members fuel rest).map fun r => ((k.1, v.1) :: r.1, r.2)
            | 125 :: rest => some ([(k.1, v.1)], rest)
            | _ => none
        | _ => none
    | _ => none

def elements : Nat → Bytes → Option (List Json × Bytes)
  | 0, _ => none
  | fuel + 1, s =>
    (value fuel s).bind fun v =>
      match skipWs v.2 with
      | 44 :: rest => (elements fuel rest).map fun r => (v.1 :: r.1, r.2)
      | 93 :: rest => some ([v.1], rest)
      | _ => none

end

/-- The value of a complete JSON text. -/
def parse (s : Bytes) : Option Json :=
  match value (s.length + 1) s with
  | some (v, rest) => if skipWs rest = [] then some v else none
  | none => none

theorem value_of_parse {s : Bytes} {v : Json} (h : parse s = some v) :
    ∃ rest, value (s.length + 1) s = some (v, rest) := by
  unfold parse at h
  split at h
  · rename_i w rest hw
    split at h
    · cases h
      exact ⟨rest, hw⟩
    · cases h
  · cases h

/-! ## Parts of a value -/

/-- The first member of that name. -/
def Json.get? (key : Bytes) : Json → Option Json
  | .obj ms => (ms.find? fun m => m.1 = key).map Prod.snd
  | _ => none

def Json.items? : Json → Option (List Json)
  | .arr l => some l
  | _ => none

def Json.str? : Json → Option Bytes
  | .str s => some s
  | _ => none

def Json.isObj : Json → Bool
  | .obj _ => true
  | _ => false

/-! ## Texts that are read as a given value -/

/-- A byte that stands for itself inside a string. -/
def Plain (b : UInt8) : Prop := 32 ≤ b ∧ b ≠ 34 ∧ b ≠ 92

instance (b : UInt8) : Decidable (Plain b) := inferInstanceAs (Decidable (_ ∧ _ ∧ _))

/-- Nothing that follows can continue a number. -/
def Stops (rest : Bytes) : Prop :=
  ∀ c ∈ rest.head?, isDigit c = false ∧ c ≠ 46 ∧ c ≠ 101 ∧ c ≠ 69

/-- `text` is the inside of a string that decodes to `decoded`. -/
def StringText (text decoded : Bytes) : Prop :=
  ∀ fuel rest, text.length < fuel → string fuel (text ++ 34 :: rest) = some (decoded, rest)

/-- `text` is read as `v`. -/
def Denotes (text : Bytes) (v : Json) : Prop :=
  ∀ fuel rest, text.length < fuel → Stops rest → value fuel (text ++ rest) = some (v, rest)

theorem StringText.nil : StringText [] [] := by
  intro fuel rest h
  obtain ⟨n, rfl⟩ : ∃ n, fuel = n + 1 := ⟨fuel - 1, by simp at h; omega⟩
  rfl

theorem StringText.plain {c : UInt8} (hc : Plain c) {t d : Bytes} (ht : StringText t d) :
    StringText (c :: t) (c :: d) := by
  intro fuel rest h
  obtain ⟨n, rfl⟩ : ∃ n, fuel = n + 1 := ⟨fuel - 1, by simp at h; omega⟩
  obtain ⟨h32, h34, h92⟩ := hc
  have hn : t.length < n := by simpa using h
  simp only [List.cons_append, string, if_neg h34, if_neg h92, if_neg (UInt8.not_lt.mpr h32),
    ht n rest hn, Option.map_some]

theorem StringText.escaped {used e : Bytes}
    (hu : ∀ rest, escape (used ++ rest) = some (e, rest)) {t d : Bytes} (ht : StringText t d) :
    StringText (92 :: (used ++ t)) (e ++ d) := by
  intro fuel rest h
  obtain ⟨n, rfl⟩ : ∃ n, fuel = n + 1 := ⟨fuel - 1, by simp at h; omega⟩
  have hn : t.length < n := by simp at h; omega
  have h34 : (92 : UInt8) ≠ 34 := by decide
  simp only [List.cons_append, List.append_assoc, string, if_neg h34, if_true, hu, Option.bind_some,
    ht n rest hn, Option.map_some]

theorem StringText.append {s d : Bytes} (hs : ∀ b ∈ s, Plain b) {t : Bytes} (ht : StringText t d) :
    StringText (s ++ t) (s ++ d) := by
  induction s with
  | nil => exact ht
  | cons c s ih => exact (ih fun b hb => hs b (by simp [hb])).plain (hs c (by simp))

/-- Plain bytes decode to themselves. -/
theorem StringText.of_plain {s : Bytes} (hs : ∀ b ∈ s, Plain b) : StringText s s := by
  simpa using StringText.nil.append hs

def quoted (s : Bytes) : Bytes := 34 :: (s ++ [34])

theorem Denotes.str {t d : Bytes} (ht : StringText t d) : Denotes (quoted t) (.str d) := by
  intro fuel rest h _
  rw [quoted] at h ⊢
  obtain ⟨n, rfl⟩ : ∃ n, fuel = n + 1 := ⟨fuel - 1, by simp at h; omega⟩
  have hws : skipWs (34 :: (t ++ [34]) ++ rest) = 34 :: (t ++ 34 :: rest) := by
    simp [skipWs, isWs]
  rw [value, hws]
  simp only [if_true]
  rw [ht n rest (by simp at h; omega)]
  rfl

theorem digits_decimal (n : Nat) {rest : Bytes} (hr : ∀ c ∈ rest.head?, isDigit c = false) :
    digits (CText.decimal n ++ rest) = (CText.decimal n, rest) := by
  have hd : ∀ b ∈ CText.decimal n, isDigit b = true := fun b hb => isDigit_of_mem_decimal hb
  have hhead : rest.takeWhile isDigit = [] ∧ rest.dropWhile isDigit = rest := by
    cases rest with
    | nil => exact ⟨rfl, rfl⟩
    | cons c rest => simp [hr c (by simp)]
  rw [digits, List.takeWhile_append_of_pos hd, List.dropWhile_append_of_pos hd, hhead.1, hhead.2,
    List.append_nil]

theorem numberPart_absent {mark signs : UInt8 → Bool} {rest : Bytes}
    (h : ∀ c ∈ rest.head?, mark c = false) : numberPart mark signs rest = some ([], rest) := by
  cases rest with
  | nil => rfl
  | cons c rest => simp [numberPart, h c (by simp)]

theorem exponent_absent {rest : Bytes} (hr : Stops rest) :
    numberPart (fun c => c == 101 || c == 69) (fun c => c == 43 || c == 45) rest =
      some ([], rest) :=
  numberPart_absent fun c hc => by simp [(hr c hc).2.2.1, (hr c hc).2.2.2]

/-- A natural number starts with a digit: no sign, and no zero in front of others. -/
theorem decimal_first (n : Nat) (rest : Bytes) :
    sign (· == 45) (decimal n ++ rest) = ([], decimal n ++ rest) ∧
      ¬(decimal n = [] ∨ ((decimal n).head? = some 48 ∧ decimal n ≠ [48])) := by
  have hdig : ∀ b ∈ decimal n, isDigit b = true := fun b hb => isDigit_of_mem_decimal hb
  obtain ⟨c, cs, hc⟩ := List.exists_cons_of_ne_nil (decimal_ne_nil n)
  have h45 : c ≠ 45 := by
    rintro rfl
    have := hdig 45 (by rw [hc]; simp)
    cases this
  refine ⟨by simp [hc, sign, h45], ?_⟩
  rintro (hnil | ⟨hz, hlong⟩)
  · exact decimal_ne_nil n hnil
  · rcases Nat.eq_zero_or_pos n with rfl | hpos
    · exact hlong (by decide)
    · exact decimal_head_ne_zero hpos hz

/-- A text that starts with a digit and that the reader of numbers takes whole. -/
theorem Denotes.number {text : Bytes} (hfirst : ∃ c ∈ text.head?, isDigit c = true)
    (h : ∀ rest, Stops rest → JsonText.number (text ++ rest) = some (text, rest)) :
    Denotes text (.num text) := by
  intro fuel rest hf hr
  obtain ⟨k, rfl⟩ : ∃ k, fuel = k + 1 := ⟨fuel - 1, by omega⟩
  obtain ⟨c, hc, hcd⟩ := hfirst
  obtain ⟨cs, rfl⟩ := List.head?_eq_some_iff.mp hc
  have hrange : 48 ≤ c.toNat ∧ c.toNat ≤ 57 := by
    simpa [isDigit, UInt8.le_iff_toNat_le] using hcd
  have hne : ∀ b : UInt8, b.toNat < 48 ∨ 57 < b.toNat → c ≠ b := by
    rintro b hb rfl; omega
  have hws : isWs c = false := by
    simp [isWs, hne 32 (by decide), hne 9 (by decide), hne 10 (by decide), hne 13 (by decide)]
  have hskip : skipWs (c :: cs ++ rest) = c :: (cs ++ rest) := by simp [skipWs, hws]
  rw [value, hskip]
  simp only [if_neg (hne 34 (by decide)), if_neg (hne 123 (by decide)), if_neg (hne 91 (by decide)),
    if_neg (hne 116 (by decide)), if_neg (hne 102 (by decide)), if_neg (hne 110 (by decide))]
  rw [← List.cons_append, h rest hr]
  rfl

theorem decimal_head (n : Nat) (rest : Bytes) :
    ∃ c ∈ (decimal n ++ rest).head?, isDigit c = true := by
  obtain ⟨c, cs, hc⟩ := List.exists_cons_of_ne_nil (decimal_ne_nil n)
  exact ⟨c, by rw [hc]; rfl, isDigit_of_mem_decimal (by rw [hc]; simp)⟩

/-- A natural number as `decimal` writes it. -/
theorem Denotes.decimal (n : Nat) : Denotes (decimal n) (.num (decimal n)) := by
  refine Denotes.number (by simpa using decimal_head n []) fun rest hr => ?_
  obtain ⟨hsign, hzero⟩ := decimal_first n rest
  unfold JsonText.number
  simp only [hsign, digits_decimal n fun c hc => (hr c hc).1,
    if_neg hzero]
  rw [numberPart_absent fun c hc => by simp [(hr c hc).2.1]]
  simp only [Option.bind_some, exponent_absent hr, Option.map_some, List.nil_append,
    List.append_nil]

/-- Two natural numbers with a point between them. -/
theorem Denotes.fixed (n m : Nat) :
    Denotes (CText.decimal n ++ 46 :: CText.decimal m)
      (.num (CText.decimal n ++ 46 :: CText.decimal m)) := by
  refine Denotes.number (decimal_head n _) fun rest hr => ?_
  obtain ⟨hsign, hzero⟩ := decimal_first n (46 :: (CText.decimal m ++ rest))
  have hpart : numberPart (· == 46) (fun _ => false) (46 :: (CText.decimal m ++ rest)) =
      some (46 :: CText.decimal m, rest) := by
    have hnosign : sign (fun _ => false) (CText.decimal m ++ rest) = ([], CText.decimal m ++ rest) := by
      cases CText.decimal m ++ rest <;> rfl
    simp only [numberPart, hnosign, digits_decimal m fun c hc => (hr c hc).1, decimal_ne_nil]
    simp
  rw [List.append_assoc, List.cons_append]
  unfold JsonText.number
  have hdigits : digits (CText.decimal n ++ 46 :: (CText.decimal m ++ rest)) =
      (CText.decimal n, 46 :: (CText.decimal m ++ rest)) :=
    digits_decimal n fun c hc => by cases hc; rfl
  simp only [hsign, hdigits, if_neg hzero, hpart, Option.bind_some, exponent_absent hr, Option.map_some,
    List.nil_append, List.append_nil]

/-! ## The numbers -/

/-- The number a literal stands for. -/
def literalValue (s : Bytes) : ℚ :=
  let sg := sign (· == 45) s
  let whole := digits sg.2
  let fraction := match whole.2 with
    | 46 :: rest => digits rest
    | rest => ([], rest)
  let exponent : Int := match fraction.2 with
    | c :: rest =>
      if c == 101 || c == 69 then
        let es := sign (fun c => c == 43 || c == 45) rest
        if es.1 = [45] then -digitsValue (digits es.2).1 else digitsValue (digits es.2).1
      else 0
    | [] => 0
  let size : ℚ := digitsValue (whole.1 ++ fraction.1) / 10 ^ fraction.1.length * 10 ^ exponent
  if sg.1 = [45] then -size else size

def Json.num? : Json → Option ℚ
  | .num s => some (literalValue s)
  | _ => none

theorem literalValue_decimal (n : Nat) : literalValue (decimal n) = n := by
  have hsign := (decimal_first n []).1
  have hdigits : digits (decimal n ++ []) = (decimal n, []) := digits_decimal n (by simp)
  rw [List.append_nil] at hsign hdigits
  simp [literalValue, hsign, hdigits, digitsValue_decimal]

/-- One digit behind the point counts tenths. -/
theorem literalValue_tenths (n : Nat) {m : Nat} (hm : m < 10) :
    literalValue (decimal n ++ 46 :: decimal m) = ((10 * n + m : Nat) : ℚ) / 10 := by
  have hsign := (decimal_first n (46 :: decimal m)).1
  have hdigits : digits (decimal n ++ 46 :: decimal m) = (decimal n, 46 :: decimal m) :=
    digits_decimal n fun c hc => by cases hc; rfl
  have hlast : digits (decimal m ++ []) = (decimal m, []) := digits_decimal m (by simp)
  rw [List.append_nil] at hlast
  have hone : decimal m = [(Nat.digitChar m).toNat.toUInt8] := by
    rw [decimal, Nat.toDigits_of_lt_base hm]
    rfl
  have hvalue : digitsValue (decimal n ++ decimal m) = 10 * n + m := by
    rw [hone, digitsValue_append, digitsValue_decimal, digitChar_value m hm]
  simp [literalValue, hsign, hdigits, hlast, hvalue]
  simp [hone]

/-! ## Objects and arrays -/

/-- The text of a member. -/
def member (key v : Bytes) : Bytes := 34 :: (key ++ 34 :: 58 :: v)

theorem stops_comma (rest : Bytes) : Stops (44 :: rest) := by
  intro c hc; simp at hc; subst hc; decide

theorem stops_brace (rest : Bytes) : Stops (125 :: rest) := by
  intro c hc; simp at hc; subst hc; decide

theorem stops_bracket (rest : Bytes) : Stops (93 :: rest) := by
  intro c hc; simp at hc; subst hc; decide

/-- The reader of members up to the value of the first. -/
theorem members_key {k dk : Bytes} (hk : StringText k dk) {fuel : Nat} (h : k.length < fuel)
    (rest : Bytes) : members (fuel + 1) (34 :: (k ++ 34 :: 58 :: rest)) =
      (value fuel rest).bind fun v =>
        match skipWs v.2 with
        | 44 :: rest => (members fuel rest).map fun r => ((dk, v.1) :: r.1, r.2)
        | 125 :: rest => some ([(dk, v.1)], rest)
        | _ => none := by
  have hws : skipWs (34 :: (k ++ 34 :: 58 :: rest)) = 34 :: (k ++ 34 :: 58 :: rest) := by
    simp [skipWs, isWs]
  have hcolon : skipWs (58 :: rest) = 58 :: rest := by simp [skipWs, isWs]
  rw [members, hws]
  simp only [hk fuel (58 :: rest) h, Option.bind_some, hcolon]

/-- Whatever members are read, the first is the key's, and a comma or the
closing brace follows its value. -/
theorem members_head {k dk : Bytes} (hk : StringText k dk) {fuel : Nat} (h : k.length < fuel)
    {rest r : Bytes} {ms : List (Bytes × Json)}
    (hms : members (fuel + 1) (34 :: (k ++ 34 :: 58 :: rest)) = some (ms, r)) :
    ∃ v s tl, value fuel rest = some (v, s) ∧ ms = (dk, v) :: tl ∧
      ∃ c s', skipWs s = c :: s' ∧ (c = 44 ∨ c = 125) := by
  rw [members_key hk h, Option.bind_eq_some_iff] at hms
  obtain ⟨⟨v, s⟩, hv, hms⟩ := hms
  simp only at hms
  split at hms
  · rename_i s' hs
    obtain ⟨⟨tl, _⟩, _, heq⟩ := Option.map_eq_some_iff.mp hms
    cases heq
    exact ⟨v, s, tl, hv, rfl, 44, s', hs, .inl rfl⟩
  · rename_i s' hs
    cases hms
    exact ⟨v, s, [], hv, rfl, 125, _, hs, .inr rfl⟩
  · cases hms

theorem members_cons {k dk v : Bytes} {dv : Json} (hk : StringText k dk) (hv : Denotes v dv)
    {fuel : Nat} (h : k.length + v.length < fuel) (rest : Bytes) :
    members (fuel + 1) (member k v ++ 44 :: rest) =
      (members fuel rest).map fun r => ((dk, dv) :: r.1, r.2) := by
  have hws : skipWs (44 :: rest) = 44 :: rest := by simp [skipWs, isWs]
  rw [show member k v ++ 44 :: rest = 34 :: (k ++ 34 :: 58 :: (v ++ 44 :: rest)) by simp [member],
    members_key hk (by omega), hv fuel _ (by omega) (stops_comma rest)]
  simp only [Option.bind_some, hws]

theorem members_last (fuel : Nat) {k dk v : Bytes} {dv : Json} (hk : StringText k dk)
    (hv : Denotes v dv) (h : k.length + v.length < fuel) (rest : Bytes) :
    members (fuel + 1) (member k v ++ 125 :: rest) = some ([(dk, dv)], rest) := by
  have hws : skipWs (125 :: rest) = 125 :: rest := by simp [skipWs, isWs]
  rw [show member k v ++ 125 :: rest = 34 :: (k ++ 34 :: 58 :: (v ++ 125 :: rest)) by simp [member],
    members_key hk (by omega), hv fuel _ (by omega) (stops_brace rest)]
  simp only [Option.bind_some, hws]

/-- Members with string values, a comma behind each. A triple gives the key, the
text of the value and what it decodes to. -/
def stringMembers (ms : List (Bytes × Bytes × Bytes)) : Bytes :=
  ms.flatMap fun m => member m.1 (quoted m.2.1) ++ [44]

theorem stringMembers_cons (m : Bytes × Bytes × Bytes) (ms : List (Bytes × Bytes × Bytes)) :
    stringMembers (m :: ms) = member m.1 (quoted m.2.1) ++ 44 :: stringMembers ms := by
  simp [stringMembers]

/-- Members with string values are read one after the other. -/
theorem members_strings {ms : List (Bytes × Bytes × Bytes)}
    (hms : ∀ m ∈ ms, (∀ b ∈ m.1, Plain b) ∧ StringText m.2.1 m.2.2) (rest : Bytes) {n : Nat}
    (hn : (stringMembers ms).length ≤ n) :
    members (n + ms.length) (stringMembers ms ++ rest) =
      (members n rest).map fun r => (ms.map (fun m => (m.1, .str m.2.2)) ++ r.1, r.2) := by
  induction ms with
  | nil => simp [stringMembers]
  | cons m ms ih =>
    obtain ⟨hkey, htext⟩ := hms m (by simp)
    rw [stringMembers_cons, List.length_append, List.length_cons] at hn
    have hlen : m.1.length + (quoted m.2.1).length < n + ms.length := by
      simp only [member, List.length_append, List.length_cons] at hn
      omega
    rw [stringMembers_cons, List.append_assoc, List.cons_append, List.length_cons, ← Nat.add_assoc,
      members_cons (StringText.of_plain hkey) (Denotes.str htext) hlen,
      ih (fun x hx => hms x (by simp [hx])) (by omega), Option.map_map]
    rfl

theorem elements_cons {v : Bytes} {dv : Json} (hv : Denotes v dv) {fuel : Nat}
    (h : v.length < fuel) (rest : Bytes) : elements (fuel + 1) (v ++ 44 :: rest) =
      (elements fuel rest).map fun r => (dv :: r.1, r.2) := by
  have hws : skipWs (44 :: rest) = 44 :: rest := by simp [skipWs, isWs]
  rw [elements, hv fuel _ h (stops_comma rest)]
  simp only [Option.bind_some, hws]

theorem elements_last {v : Bytes} {dv : Json} (hv : Denotes v dv) {fuel : Nat}
    (h : v.length < fuel) (rest : Bytes) :
    elements (fuel + 1) (v ++ 93 :: rest) = some ([dv], rest) := by
  have hws : skipWs (93 :: rest) = 93 :: rest := by simp [skipWs, isWs]
  rw [elements, hv fuel _ h (stops_bracket rest)]
  simp only [Option.bind_some, hws]

theorem elements_head {fuel : Nat} {s r : Bytes} {items : List Json}
    (h : elements (fuel + 1) s = some (items, r)) :
    ∃ v s' tl, value fuel s = some (v, s') ∧ items = v :: tl := by
  rw [elements, Option.bind_eq_some_iff] at h
  obtain ⟨⟨v, s'⟩, hv, h⟩ := h
  simp only at h
  split at h
  · obtain ⟨⟨tl, _⟩, _, heq⟩ := Option.map_eq_some_iff.mp h
    cases heq
    exact ⟨v, s', tl, hv, rfl⟩
  · cases h
    exact ⟨v, s', [], hv, rfl⟩
  · cases h

theorem value_str (fuel : Nat) (rest : Bytes) :
    value (fuel + 1) (34 :: rest) = (string fuel rest).map fun r => (.str r.1, r.2) := by
  have hws : skipWs (34 :: rest) = 34 :: rest := by simp [skipWs, isWs]
  rw [value, hws]
  simp

/-- An object is read by its members. -/
theorem value_obj (fuel : Nat) (rest : Bytes) :
    value (fuel + 1) (123 :: 34 :: rest) =
      (members fuel (34 :: rest)).map fun r => (.obj r.1, r.2) := by
  have hws : skipWs (123 :: 34 :: rest) = 123 :: 34 :: rest := by simp [skipWs, isWs]
  have hin : skipWs (34 :: rest) = 34 :: rest := by simp [skipWs, isWs]
  rw [value, hws]
  simp [hin]

/-- An array that starts with an object is read by its elements. -/
theorem value_arr (fuel : Nat) (rest : Bytes) :
    value (fuel + 1) (91 :: 123 :: rest) =
      (elements fuel (123 :: rest)).map fun r => (.arr r.1, r.2) := by
  have hws : skipWs (91 :: 123 :: rest) = 91 :: 123 :: rest := by simp [skipWs, isWs]
  have hin : skipWs (123 :: rest) = 123 :: rest := by simp [skipWs, isWs]
  rw [value, hws]
  simp [hin]

theorem Denotes.emptyObj : Denotes [123, 125] (.obj []) := by
  intro fuel rest h _
  obtain ⟨n, rfl⟩ : ∃ n, fuel = n + 1 := ⟨fuel - 1, by simp at h; omega⟩
  have hws : skipWs ([123, 125] ++ rest) = 123 :: 125 :: rest := by simp [skipWs, isWs]
  have hin : skipWs (125 :: rest) = 125 :: rest := by simp [skipWs, isWs]
  rw [value, hws]
  simp [hin]

/-- Members with a comma between them. A triple gives the key, the text of the
value and what it denotes. -/
def membersText : List (Bytes × Bytes × Json) → Bytes
  | [] => []
  | [m] => member m.1 m.2.1
  | m :: ms => member m.1 m.2.1 ++ 44 :: membersText ms

theorem membersText_forall {p : UInt8 → Prop} (h34 : p 34) (h44 : p 44) (h58 : p 58) :
    ∀ {ms : List (Bytes × Bytes × Json)}, (∀ m ∈ ms, (∀ b ∈ m.1, p b) ∧ ∀ b ∈ m.2.1, p b) →
      ∀ b ∈ membersText ms, p b
  | [], _ => by simp [membersText]
  | [m], h => by
    obtain ⟨hk, hv⟩ := h m (by simp)
    simp only [membersText, member, List.forall_mem_cons, List.forall_mem_append]
    exact ⟨h34, hk, h34, h58, hv⟩
  | m :: m' :: ms, h => by
    obtain ⟨hk, hv⟩ := h m (by simp)
    rw [membersText]
    · simp only [member, List.forall_mem_cons, List.forall_mem_append]
      exact ⟨⟨h34, hk, h34, h58, hv⟩, h44,
        membersText_forall h34 h44 h58 fun x hx => h x (List.mem_cons_of_mem _ hx)⟩
    · simp

theorem members_text (rest : Bytes) : ∀ {ms : List (Bytes × Bytes × Json)} {fuel : Nat}, ms ≠ [] →
    (∀ m ∈ ms, (∀ b ∈ m.1, Plain b) ∧ Denotes m.2.1 m.2.2) → (membersText ms).length < fuel →
    members fuel (membersText ms ++ 125 :: rest) = some (ms.map fun m => (m.1, m.2.2), rest)
  | [], _, hne, _, _ => absurd rfl hne
  | [m], fuel, _, h, hf => by
    obtain ⟨hkey, hv⟩ := h m (by simp)
    obtain ⟨n, rfl⟩ : ∃ n, fuel = n + 1 := ⟨fuel - 1, by omega⟩
    simp only [membersText, member, List.length_cons, List.length_append] at hf
    exact members_last n (StringText.of_plain hkey) hv (by omega) rest
  | m :: m' :: ms, fuel, _, h, hf => by
    obtain ⟨hkey, hv⟩ := h m (by simp)
    obtain ⟨n, rfl⟩ : ∃ n, fuel = n + 1 := ⟨fuel - 1, by omega⟩
    simp only [membersText, member, List.length_cons, List.length_append] at hf
    rw [membersText, List.append_assoc, List.cons_append,
      members_cons (StringText.of_plain hkey) hv (by omega),
      members_text rest (by simp) (fun x hx => h x (List.mem_cons_of_mem _ hx)) (by omega)]
    · rfl
    · simp

/-- **An object** is read by its members. -/
theorem Denotes.obj (ms : List (Bytes × Bytes × Json)) (hne : ms ≠ [])
    (h : ∀ m ∈ ms, (∀ b ∈ m.1, Plain b) ∧ Denotes m.2.1 m.2.2) :
    Denotes (123 :: (membersText ms ++ [125])) (.obj (ms.map fun m => (m.1, m.2.2))) := by
  intro fuel rest hf _
  simp only [List.length_cons, List.length_append, List.length_nil] at hf
  obtain ⟨n, rfl⟩ : ∃ n, fuel = n + 1 := ⟨fuel - 1, by omega⟩
  have hopen : ∃ tail, membersText ms ++ 125 :: rest = 34 :: tail := by
    match ms, hne with
    | [m], _ => exact ⟨_, rfl⟩
    | m :: m' :: ms, _ => exact ⟨_, rfl⟩
  have hread := @members_text rest ms n hne h (by omega)
  obtain ⟨tail, htail⟩ := hopen
  rw [List.cons_append, List.append_assoc, List.singleton_append]
  rw [htail] at hread ⊢
  rw [value_obj, hread]
  rfl

theorem Denotes.emptyArr : Denotes [91, 93] (.arr []) := by
  intro fuel rest h _
  obtain ⟨n, rfl⟩ : ∃ n, fuel = n + 1 := ⟨fuel - 1, by simp at h; omega⟩
  have hws : skipWs ([91, 93] ++ rest) = 91 :: 93 :: rest := by simp [skipWs, isWs]
  have hin : skipWs (93 :: rest) = 93 :: rest := by simp [skipWs, isWs]
  rw [value, hws]
  simp [hin]

/-! ## A raw text between quotes -/

theorem utf8_length (n : Nat) : (utf8 n).length ≤ 4 := by
  unfold utf8
  split_ifs <;> simp

theorem hexVal_quote : hexVal 34 = none := rfl

theorem hex4_reads {s t : Bytes} {n : Nat} (h : hex4 s = some (n, t)) :
    ∃ used, s = used ++ t ∧ (34 : UInt8) ∉ used ∧ used.length = 4 := by
  match s, h with
  | a :: b :: c :: d :: rest, h =>
    simp only [hex4, Option.bind_eq_bind, Option.bind_eq_some_iff, Option.some.injEq,
      Prod.mk.injEq] at h
    obtain ⟨va, ha, vb, hb, vc, hc, vd, hd, _, rfl⟩ := h
    refine ⟨[a, b, c, d], rfl, ?_, rfl⟩
    intro hmem
    simp only [List.mem_cons, List.not_mem_nil, or_false] at hmem
    rcases hmem with rfl | rfl | rfl | rfl <;> simp_all [hexVal_quote]

theorem lowSurrogate_reads {s t : Bytes} {n : Nat} (h : lowSurrogate s = some (n, t)) :
    ∃ used, s = used ++ t ∧ (34 : UInt8) ∉ used := by
  unfold lowSurrogate at h
  split at h
  · obtain ⟨hr, _⟩ := Option.filter_eq_some_iff.mp h
    obtain ⟨used, rfl, hq, _⟩ := hex4_reads hr
    exact ⟨92 :: 117 :: used, rfl, by simpa using hq⟩
  · cases h

/-- An escape never reaches over a quote, and is longer than what it stands for. -/
theorem unicodeEscape_reads {s t e : Bytes} (h : unicodeEscape s = some (e, t)) :
    ∃ used, s = used ++ t ∧ (34 : UInt8) ∉ used ∧ e.length ≤ used.length := by
  simp only [unicodeEscape, Option.map_eq_some_iff] at h
  obtain ⟨⟨n, s'⟩, hh, he⟩ := h
  obtain ⟨used, rfl, hq, hlen⟩ := hex4_reads hh
  split at he
  · rename_i low hlow
    split at hlow
    · obtain ⟨rfl, rfl⟩ := Prod.mk.injEq .. ▸ he
      obtain ⟨used', hs', hq'⟩ := lowSurrogate_reads (n := low.1) (t := low.2) hlow
      refine ⟨used ++ used', by rw [List.append_assoc, ← hs'], by simp [hq, hq'], ?_⟩
      have := utf8_length (0x10000 + 1024 * (n - 0xD800) + (low.1 - 0xDC00))
      simp only [List.length_append]
      omega
    · cases hlow
  · obtain ⟨rfl, rfl⟩ := Prod.mk.injEq .. ▸ he
    exact ⟨used, rfl, hq, hlen ▸ utf8_length n⟩

theorem escape_reads {s t e : Bytes} (h : escape s = some (e, t)) :
    ∃ b used, s = b :: (used ++ t) ∧ (34 : UInt8) ∉ used ∧ e.length ≤ used.length + 1 := by
  cases s with
  | nil => cases h
  | cons b rest =>
    rw [escape] at h
    split at h
    · cases h
      exact ⟨b, [], rfl, by simp, by simp⟩
    · split at h
      · obtain ⟨used, rfl, hq, hlen⟩ := unicodeEscape_reads h
        exact ⟨b, used, rfl, hq, by omega⟩
      · cases h

theorem append_before {α : Type*} {p t x r : List α} {c : α} (h : p ++ t = x ++ c :: r) (hc : c ∉ p) :
    ∃ x', x = p ++ x' ∧ t = x' ++ c :: r := by
  rcases List.append_eq_append_iff.mp h with ⟨y, hx, ht⟩ | ⟨y, hp, ht⟩
  · exact ⟨y, hx, ht⟩
  · cases y with
    | nil => exact ⟨[], by simpa using hp.symm, by simpa using ht.symm⟩
    | cons b y =>
      rw [List.cons_append, List.cons.injEq] at ht
      exact absurd (by rw [hp, ht.1]; simp) hc

/-- **A raw text in quotes**, with another string behind it. If the reader gets
a string out of it at all, it is the text itself, which is then plain; or a
shorter string; or the closing quote was escaped and the string ends where the
next one should have begun. -/
theorem string_raw : ∀ (fuel : Nat) (x : Bytes) {r d t : Bytes},
    string fuel (x ++ 34 :: 44 :: 34 :: r) = some (d, t) →
    (d = x ∧ ∀ b ∈ x, Plain b) ∨ d.length < x.length ∨ t = r
  | 0, x, r, d, t, h => by cases h
  | fuel + 1, [], r, d, t, h => by
    cases h
    exact .inl ⟨rfl, by simp⟩
  | fuel + 1, c :: x, r, d, t, h => by
    rw [List.cons_append, string] at h
    split_ifs at h with h34 h92 h32
    · cases h
      exact .inr (.inl (by simp))
    · simp only [Option.bind_eq_some_iff, Option.map_eq_some_iff] at h
      obtain ⟨⟨e, s⟩, he, ⟨d', t'⟩, hs, heq⟩ := h
      cases heq
      cases x with
      | nil =>
        -- the closing quote itself is escaped
        cases he
        rcases fuel with _ | _ | n <;> simp [string] at hs
        exact .inr (.inr hs.2.symm)
      | cons b x =>
        obtain ⟨b', used, hx, hq, hlen⟩ := escape_reads he
        rw [List.cons_append, List.cons.injEq] at hx
        obtain ⟨x', rfl, rfl⟩ := append_before hx.2.symm hq
        rcases string_raw fuel x' hs with ⟨rfl, _⟩ | hlt | rfl
        · exact .inr (.inl (by simp only [List.length_append, List.length_cons]; omega))
        · exact .inr (.inl (by simp only [List.length_append, List.length_cons]; omega))
        · exact .inr (.inr rfl)
    · simp only [Option.map_eq_some_iff] at h
      obtain ⟨⟨d', t'⟩, hs, heq⟩ := h
      cases heq
      rcases string_raw fuel x hs with ⟨rfl, hp⟩ | hlt | rfl
      · refine .inl ⟨rfl, fun b hb => ?_⟩
        rcases List.mem_cons.mp hb with rfl | hb
        · exact ⟨UInt8.not_lt.mp h32, h34, h92⟩
        · exact hp b hb
      · exact .inr (.inl (by simpa using hlt))
      · exact .inr (.inr rfl)

end Syswatch.Lib.JsonText
