import Syswatch.Lib.JsonText

/-! # Code points and their encodings

Decoders that let surrogates through, as with the error handler `surrogatepass`.
UTF-8 is read one code point at a time: the code point that the bytes stand for
is computed from them and has to be encoded by these very bytes. -/

namespace Syswatch.Lib.Unicode
open CText JsonText

/-- Code points; surrogates are code points too. -/
abbrev Text := List Nat

/-! ## UTF-8 -/

/-- What the bytes at the front stand for, if they encode anything. -/
def utf8Value (s : Bytes) : Nat :=
  let byte (i : Nat) : Nat := (s.getD i 0).toNat
  if byte 0 < 0x80 then byte 0
  else if byte 0 < 0xE0 then 64 * (byte 0 - 0xC0) + (byte 1 - 0x80)
  else if byte 0 < 0xF0 then
    4096 * (byte 0 - 0xE0) + (64 * (byte 1 - 0x80) + (byte 2 - 0x80))
  else 262144 * (byte 0 - 0xF0) + (4096 * (byte 1 - 0x80) + (64 * (byte 2 - 0x80) + (byte 3 - 0x80)))

/-- The first code point and the bytes behind it. -/
def utf8Next (s : Bytes) : Option (Nat × Bytes) :=
  let n := utf8Value s
  if n < 0x110000 ∧ utf8 n <+: s then some (n, s.drop (utf8 n).length) else none

def utf8Loop : Nat → Bytes → Option Text
  | _, [] => some []
  | 0, _ :: _ => none
  | fuel + 1, b :: s => (utf8Next (b :: s)).bind fun r => (utf8Loop fuel r.2).map (r.1 :: ·)

/-- `s.decode('utf-8', 'surrogatepass')`. -/
def utf8Decode (s : Bytes) : Option Text := utf8Loop s.length s

theorem toUInt8_toNat {n : Nat} (h : n < 256) : n.toUInt8.toNat = n := by
  rw [Nat.toUInt8_eq, UInt8.toNat_ofNat', Nat.mod_eq_of_lt h]

theorem utf8_ne_nil (n : Nat) : utf8 n ≠ [] := by
  unfold utf8
  split_ifs <;> simp

theorem utf8_ascii {n : Nat} (h : n < 0x80) : utf8 n = [n.toUInt8] := if_pos h

/-- Of several bytes none is one of ASCII. -/
theorem utf8_high {n : Nat} (h : 0x80 ≤ n) (hn : n < 0x110000) : ∀ b ∈ utf8 n, 0x80 ≤ b := by
  have hbyte {k : Nat} (h0 : 0x80 ≤ k) (h1 : k < 256) : (0x80 : UInt8) ≤ k.toUInt8 := by
    rw [UInt8.le_iff_toNat_le, toUInt8_toNat h1]
    exact h0
  intro b hb
  unfold utf8 at hb
  split_ifs at hb with h1 h2 h3
  · omega
  all_goals simp only [List.mem_cons, List.mem_nil_iff, or_false] at hb
  · rcases hb with rfl | rfl <;> exact hbyte (by omega) (by omega)
  · rcases hb with rfl | rfl | rfl <;> exact hbyte (by omega) (by omega)
  · rcases hb with rfl | rfl | rfl | rfl <;> exact hbyte (by omega) (by omega)

/-- The bytes of a code point stand for it, whatever follows. -/
theorem utf8Value_utf8 {n : Nat} (h : n < 0x110000) (rest : Bytes) :
    utf8Value (utf8 n ++ rest) = n := by
  unfold utf8
  split_ifs with h1 h2 h3
  · have h0 : n.toUInt8.toNat = n := toUInt8_toNat (by omega)
    simp [utf8Value, h0, h1]
  · have h0 : (0xC0 + n / 64).toUInt8.toNat = 0xC0 + n / 64 := toUInt8_toNat (by omega)
    have hb : (0x80 + n % 64).toUInt8.toNat = 0x80 + n % 64 := toUInt8_toNat (by omega)
    simp only [utf8Value, List.cons_append, List.nil_append, List.getD_cons_zero,
      List.getD_cons_succ, h0, hb]
    rw [if_neg (by omega), if_pos (by omega)]
    omega
  · have h0 : (0xE0 + n / 4096).toUInt8.toNat = 0xE0 + n / 4096 := toUInt8_toNat (by omega)
    have hb : (0x80 + n / 64 % 64).toUInt8.toNat = 0x80 + n / 64 % 64 := toUInt8_toNat (by omega)
    have hc : (0x80 + n % 64).toUInt8.toNat = 0x80 + n % 64 := toUInt8_toNat (by omega)
    simp only [utf8Value, List.cons_append, List.nil_append, List.getD_cons_zero,
      List.getD_cons_succ, h0, hb, hc]
    rw [if_neg (by omega), if_neg (by omega), if_pos (by omega)]
    omega
  · have h0 : (0xF0 + n / 262144).toUInt8.toNat = 0xF0 + n / 262144 := toUInt8_toNat (by omega)
    have hb : (0x80 + n / 4096 % 64).toUInt8.toNat = 0x80 + n / 4096 % 64 := toUInt8_toNat (by omega)
    have hc : (0x80 + n / 64 % 64).toUInt8.toNat = 0x80 + n / 64 % 64 := toUInt8_toNat (by omega)
    have hd : (0x80 + n % 64).toUInt8.toNat = 0x80 + n % 64 := toUInt8_toNat (by omega)
    simp only [utf8Value, List.cons_append, List.nil_append, List.getD_cons_zero,
      List.getD_cons_succ, h0, hb, hc, hd]
    rw [if_neg (by omega), if_neg (by omega), if_neg (by omega)]
    omega

theorem utf8Next_utf8 {n : Nat} (h : n < 0x110000) (rest : Bytes) :
    utf8Next (utf8 n ++ rest) = some (n, rest) := by
  simp only [utf8Next, utf8Value_utf8 h, List.prefix_append, and_true, if_pos h, List.drop_left]

theorem utf8Next_some {s r : Bytes} {n : Nat} (h : utf8Next s = some (n, r)) :
    n < 0x110000 ∧ s = utf8 n ++ r := by
  simp only [utf8Next] at h
  split at h
  · next hok =>
    cases h
    exact ⟨hok.1, (List.prefix_iff_eq_append.mp hok.2).symm⟩
  · cases h

/-- A text whose characters all have an encoding. -/
def Encodable (text : Text) : Prop := ∀ n ∈ text, n < 0x110000

theorem utf8Loop_flatMap {text : Text} (h : Encodable text) {fuel : Nat}
    (hfuel : (text.flatMap utf8).length ≤ fuel) : utf8Loop fuel (text.flatMap utf8) = some text := by
  induction text generalizing fuel with
  | nil => cases fuel <;> rfl
  | cons n text ih =>
    have hpos : 0 < (utf8 n).length := List.length_pos_iff.mpr (utf8_ne_nil n)
    rw [List.flatMap_cons, List.length_append] at hfuel
    obtain ⟨fuel, rfl⟩ := Nat.exists_eq_succ_of_ne_zero (show fuel ≠ 0 by omega)
    obtain ⟨b, bs, hb⟩ := List.exists_cons_of_ne_nil (utf8_ne_nil n)
    have hnext := utf8Next_utf8 (h n (by simp)) (text.flatMap utf8)
    rw [List.flatMap_cons]
    rw [hb, List.cons_append] at hnext ⊢
    rw [utf8Loop, hnext, Option.bind_some, ih (fun m hm => h m (by simp [hm])) (by omega)]
    rfl

theorem utf8Loop_some {fuel : Nat} {s : Bytes} {text : Text} (h : utf8Loop fuel s = some text) :
    Encodable text ∧ s = text.flatMap utf8 := by
  induction fuel generalizing s text with
  | zero =>
    cases s with
    | nil => cases h; exact ⟨by simp [Encodable], rfl⟩
    | cons b s => cases h
  | succ fuel ih =>
    cases s with
    | nil => cases h; exact ⟨by simp [Encodable], rfl⟩
    | cons b s =>
      rw [utf8Loop] at h
      obtain ⟨⟨n, r⟩, hnext, hrest⟩ := Option.bind_eq_some_iff.mp h
      obtain ⟨text, htext, rfl⟩ := Option.map_eq_some_iff.mp hrest
      obtain ⟨hn, hs⟩ := utf8Next_some hnext
      obtain ⟨henc, rfl⟩ := ih htext
      refine ⟨fun m hm => ?_, by rw [hs]; rfl⟩
      rcases List.mem_cons.mp hm with rfl | hm
      · exact hn
      · exact henc m hm

/-- **Decoding is the inverse of encoding**, and nothing else is decoded. -/
theorem utf8Decode_iff {s : Bytes} {text : Text} :
    utf8Decode s = some text ↔ Encodable text ∧ s = text.flatMap utf8 := by
  constructor
  · exact utf8Loop_some
  · rintro ⟨henc, rfl⟩
    exact utf8Loop_flatMap henc (Nat.le_refl _)

theorem utf8Decode_append {a b : Bytes} {x y : Text} (ha : utf8Decode a = some x)
    (hb : utf8Decode b = some y) : utf8Decode (a ++ b) = some (x ++ y) := by
  obtain ⟨hx, rfl⟩ := utf8Decode_iff.mp ha
  obtain ⟨hy, rfl⟩ := utf8Decode_iff.mp hb
  refine utf8Decode_iff.mpr ⟨fun n hn => ?_, List.flatMap_append.symm⟩
  rcases List.mem_append.mp hn with hn | hn
  · exact hx n hn
  · exact hy n hn

/-- Texts of their own between separators are one text. -/
theorem utf8Decode_intercalate {sep : Bytes} {mark : Text} (hsep : utf8Decode sep = some mark)
    {parts : List Bytes} {texts : List Text}
    (h : List.Forall₂ (fun part text => utf8Decode part = some text) parts texts) :
    utf8Decode (List.intercalate sep parts) = some (List.intercalate mark texts) := by
  induction h with
  | nil => rfl
  | cons hfirst hrest ih =>
    cases hrest with
    | nil => simpa using hfirst
    | cons hnext hlater => simpa using utf8Decode_append hfirst (utf8Decode_append hsep ih)

/-! ### Texts cut off inside a character -/

/-- The bytes encode code points of that kind. -/
def Encodes (ok : Nat → Prop) (s : Bytes) : Prop := ∃ text : Text, (∀ n ∈ text, ok n) ∧ s = text.flatMap utf8

/-- UTF-8, in which no surrogate is encoded. -/
abbrev WellFormed (s : Bytes) : Prop := Encodes Nat.isValidChar s

theorem utf8Decode_isSome {s : Bytes} : (utf8Decode s).isSome ↔ Encodes (· < 0x110000) s := by
  rw [Option.isSome_iff_exists]
  exact exists_congr fun _ => utf8Decode_iff

theorem isValidChar_lt {n : Nat} (h : n.isValidChar) : n < 0x110000 := by
  rcases h with h | h <;> omega

theorem Encodes.append {ok : Nat → Prop} {s t : Bytes} (hs : Encodes ok s) (ht : Encodes ok t) :
    Encodes ok (s ++ t) := by
  obtain ⟨x, hx, rfl⟩ := hs
  obtain ⟨y, hy, rfl⟩ := ht
  refine ⟨x ++ y, fun n hn => ?_, List.flatMap_append.symm⟩
  rcases List.mem_append.mp hn with hn | hn
  · exact hx n hn
  · exact hy n hn

theorem encodes_ascii {ok : Nat → Prop} (hok : ∀ n < 0x80, ok n) {s : Bytes} (h : ∀ b ∈ s, b < 0x80) :
    Encodes ok s := by
  refine ⟨s.map UInt8.toNat, fun n hn => ?_, ?_⟩
  · obtain ⟨b, hb, rfl⟩ := List.mem_map.mp hn
    exact hok _ (h b hb)
  · rw [List.flatMap_map]
    have hself : ∀ b ∈ s, utf8 b.toNat = [b] := fun b hb =>
      (utf8_ascii (h b hb)).trans (congrArg (fun c => [c]) UInt8.ofNat_toNat)
    calc s = s.flatMap fun b => [b] := (List.flatMap_singleton' s).symm
      _ = s.flatMap fun b => utf8 b.toNat := (List.flatMap_congr hself).symm

/-- The encoding of a code point is not the start of another's. -/
theorem utf8_cancel {a b : Nat} (ha : a < 0x110000) (hb : b < 0x110000) {x y : Bytes}
    (h : utf8 a ++ x = utf8 b ++ y) : a = b ∧ x = y := by
  have hnext := utf8Next_utf8 ha x
  rw [h, utf8Next_utf8 hb y] at hnext
  cases hnext
  exact ⟨rfl, rfl⟩

theorem Encodes.of_append {ok : Nat → Prop} (hok : ∀ n, ok n → n < 0x110000) {s t : Bytes}
    (hs : Encodes ok s) (h : Encodes ok (s ++ t)) : Encodes ok t := by
  obtain ⟨x, hx, rfl⟩ := hs
  induction x with
  | nil => exact h
  | cons n x ih =>
    obtain ⟨y, hy, heq⟩ := h
    rw [List.flatMap_cons, List.append_assoc] at heq
    cases y with
    | nil => exact absurd (List.append_eq_nil_iff.mp heq).1 (utf8_ne_nil n)
    | cons m y =>
      obtain ⟨rfl, hrest⟩ := utf8_cancel (hok n (hx n List.mem_cons_self)) (hok m (hy m List.mem_cons_self)) heq
      exact ih (fun k hk => hx k (List.mem_cons_of_mem _ hk))
        ⟨y, fun k hk => hy k (List.mem_cons_of_mem _ hk), hrest⟩

/-- A part of the bytes of one code point is no text. -/
theorem not_encodes_part {ok : Nat → Prop} (hok : ∀ n, ok n → n < 0x110000) {n : Nat} (hn : n < 0x110000)
    {q more : Bytes} (h : utf8 n = q ++ more) (hq : q ≠ []) (hmore : more ≠ []) : ¬Encodes ok q := by
  rintro ⟨text, htext, rfl⟩
  cases text with
  | nil => exact hq rfl
  | cons m text =>
    rw [List.flatMap_cons, List.append_assoc] at h
    obtain ⟨rfl, hrest⟩ := utf8_cancel hn (hok m (htext m List.mem_cons_self))
      ((List.append_nil _).trans h)
    exact hmore (List.append_eq_nil_iff.mp hrest.symm).2

/-- The start of a text ends between two characters, or inside of one. -/
theorem prefix_split {text : Text} {p : Bytes} (h : p <+: text.flatMap utf8) :
    (∃ before rest, text = before ++ rest ∧ p = before.flatMap utf8) ∨
      ∃ before n rest q more, text = before ++ n :: rest ∧ p = before.flatMap utf8 ++ q ∧
        utf8 n = q ++ more ∧ q ≠ [] ∧ more ≠ [] := by
  induction text generalizing p with
  | nil => exact .inl ⟨[], [], rfl, List.prefix_nil.mp h⟩
  | cons n text ih =>
    rw [List.flatMap_cons] at h
    rcases List.prefix_or_prefix_of_prefix h (List.prefix_append (utf8 n) _) with ⟨more, hmore⟩ | ⟨p', rfl⟩
    · rcases eq_or_ne p [] with rfl | hp
      · exact .inl ⟨[], n :: text, rfl, rfl⟩
      · rcases eq_or_ne more [] with rfl | hne
        · exact .inl ⟨[n], text, rfl, by simpa using hmore⟩
        · exact .inr ⟨[], n, text, p, more, rfl, rfl, hmore.symm, hp, hne⟩
    · rw [List.prefix_append_right_inj] at h
      rcases ih h with ⟨before, rest, rfl, rfl⟩ | ⟨before, m, rest, q, more, rfl, rfl, hm, hq, hne⟩
      · exact .inl ⟨n :: before, rest, rfl, rfl⟩
      · exact .inr ⟨n :: before, m, rest, q, more, rfl, by simp, hm, hq, hne⟩

/-- A text in front of a character of ASCII is a text of its own. -/
theorem Encodes.of_append_ascii {ok : Nat → Prop} (hok : ∀ n, ok n → n < 0x110000) {s rest : Bytes}
    {b : UInt8} (hb : b < 0x80) (h : Encodes ok (s ++ b :: rest)) : Encodes ok s := by
  obtain ⟨text, htext, heq⟩ := h
  rcases prefix_split ⟨b :: rest, heq⟩ with ⟨before, after, rfl, rfl⟩ |
    ⟨before, n, after, q, more, rfl, rfl, hn, hq, hmore⟩
  · exact ⟨before, fun m hm => htext m (List.mem_append_left _ hm), rfl⟩
  · have hvalid := hok n (htext n (by simp))
    have hlen : 0x80 ≤ n := by
      by_contra hlt
      rw [utf8_ascii (Nat.lt_of_not_le hlt)] at hn
      have hone := congrArg List.length hn
      have := List.length_pos_iff.mpr hq
      have := List.length_pos_iff.mpr hmore
      rw [List.length_append, List.length_singleton] at hone
      omega
    obtain ⟨c, more, rfl⟩ := List.exists_cons_of_ne_nil hmore
    have hhigh := utf8_high hlen hvalid c (by rw [hn]; simp)
    simp only [List.flatMap_append, List.flatMap_cons, hn, List.append_assoc, List.cons_append,
      List.append_cancel_left_eq, List.cons.injEq] at heq
    exact absurd (heq.1 ▸ hb) (UInt8.not_lt.mpr hhigh)

/-! ## UTF-16 and UTF-32 -/

/-- The number of some bytes, the first of them being the lowest or the highest. -/
def unitValue (little : Bool) (bytes : Bytes) : Nat :=
  (if little then bytes.reverse else bytes).foldl (fun n b => 256 * n + b.toNat) 0

def units16 (little : Bool) : Bytes → Option (List Nat)
  | [] => some []
  | a :: b :: s => (units16 little s).map (unitValue little [a, b] :: ·)
  | _ => none

/-- A high surrogate joins the low one behind it; any other stays. -/
def joinSurrogates : List Nat → Text
  | high :: low :: s =>
    if (0xD800 ≤ high ∧ high < 0xDC00) ∧ 0xDC00 ≤ low ∧ low < 0xE000 then
      (0x10000 + 1024 * (high - 0xD800) + (low - 0xDC00)) :: joinSurrogates s
    else high :: joinSurrogates (low :: s)
  | s => s

def utf16Decode (little : Bool) (s : Bytes) : Option Text := (units16 little s).map joinSurrogates

def utf32Decode (little : Bool) : Bytes → Option Text
  | [] => some []
  | a :: b :: c :: d :: s =>
    let n := unitValue little [a, b, c, d]
    if n < 0x110000 then (utf32Decode little s).map (n :: ·) else none
  | _ => none

/-! ## The encoding of a JSON text -/

inductive Encoding where
  | utf8
  | utf8Sig
  | utf16
  | utf16Le
  | utf16Be
  | utf32
  | utf32Le
  | utf32Be
  deriving DecidableEq

def bomUtf8 : Bytes := [0xEF, 0xBB, 0xBF]
def bomUtf16Le : Bytes := [0xFF, 0xFE]
def bomUtf16Be : Bytes := [0xFE, 0xFF]
def bomUtf32Le : Bytes := [0xFF, 0xFE, 0, 0]
def bomUtf32Be : Bytes := [0, 0, 0xFE, 0xFF]

/-- `json.detect_encoding`: by the byte order mark, or by the place of the NULs
among the first bytes. -/
def detectEncoding (s : Bytes) : Encoding :=
  if bomUtf32Be.isPrefixOf s ∨ bomUtf32Le.isPrefixOf s then .utf32
  else if bomUtf16Be.isPrefixOf s ∨ bomUtf16Le.isPrefixOf s then .utf16
  else if bomUtf8.isPrefixOf s then .utf8Sig
  else match s with
    | a :: b :: c :: d :: _ =>
      if a = 0 then if b ≠ 0 then .utf16Be else .utf32Be
      else if b = 0 then if c ≠ 0 ∨ d ≠ 0 then .utf16Le else .utf32Le
      else .utf8
    | [a, b] => if a = 0 then .utf16Be else if b = 0 then .utf16Le else .utf8
    | _ => .utf8

/-- `s.decode(encoding, 'surrogatepass')`. A mark at the front gives the byte
order and is dropped. -/
def decode (s : Bytes) : Encoding → Option Text
  | .utf8 => utf8Decode s
  | .utf8Sig => utf8Decode (if bomUtf8.isPrefixOf s then s.drop 3 else s)
  | .utf16 =>
    if bomUtf16Be.isPrefixOf s then utf16Decode false (s.drop 2)
    else utf16Decode true (if bomUtf16Le.isPrefixOf s then s.drop 2 else s)
  | .utf16Le => utf16Decode true s
  | .utf16Be => utf16Decode false s
  | .utf32 =>
    if bomUtf32Be.isPrefixOf s then utf32Decode false (s.drop 4)
    else utf32Decode true (if bomUtf32Le.isPrefixOf s then s.drop 4 else s)
  | .utf32Le => utf32Decode true s
  | .utf32Be => utf32Decode false s

/-- A text that starts with two characters of ASCII is UTF-8. -/
theorem detectEncoding_ascii {a b : UInt8} (ha : 0 < a ∧ a < 0x80) (hb : 0 < b) (s : Bytes) :
    detectEncoding (a :: b :: s) = .utf8 := by
  obtain ⟨hpos, hlt⟩ := ha
  have ha0 : a ≠ 0 := (UInt8.pos_iff_ne_zero).mp hpos
  have hb0 : b ≠ 0 := (UInt8.pos_iff_ne_zero).mp hb
  have hmark {c : UInt8} (hc : 0x80 ≤ c) : (c == a) = false := by
    refine beq_eq_false_iff_ne.mpr ?_
    rintro rfl
    exact absurd hlt (UInt8.not_lt.mpr hc)
  have h0 : ((0 : UInt8) == a) = false := beq_eq_false_iff_ne.mpr ha0.symm
  unfold detectEncoding
  simp only [bomUtf8, bomUtf16Le, bomUtf16Be, bomUtf32Le, bomUtf32Be, List.isPrefixOf, h0,
    hmark (show (0x80 : UInt8) ≤ 0xFF by decide), hmark (show (0x80 : UInt8) ≤ 0xFE by decide),
    hmark (show (0x80 : UInt8) ≤ 0xEF by decide), Bool.false_and, Bool.false_eq_true, or_self, if_false]
  cases s with
  | nil => simp [ha0, hb0]
  | cons c s => cases s <;> simp [ha0, hb0]

theorem detectEncoding_cstring {s : Bytes} (h0 : (0 : UInt8) ∉ s) (hfirst : ∀ a ∈ s.head?, a < 0x80) :
    detectEncoding s = .utf8 := by
  have hpos {a : UInt8} (ha : a ∈ s) : 0 < a := by
    refine (UInt8.pos_iff_ne_zero).mpr ?_
    rintro rfl
    exact h0 ha
  match s with
  | [] => rfl
  | [a] => simp [detectEncoding, bomUtf8, bomUtf16Le, bomUtf16Be, bomUtf32Le, bomUtf32Be, List.isPrefixOf]
  | a :: b :: s => exact detectEncoding_ascii ⟨hpos (by simp), hfirst a rfl⟩ (hpos (by simp)) s

end Syswatch.Lib.Unicode
