import Syswatch.Utils

/-! # Which texts `parse_ull` takes

Every counter goes through it. It leaves the sign to `strtoull`, which takes a
minus sign for a number to be negated in unsigned arithmetic. -/

namespace Syswatch.ParseUll
open Lib.CText

/-- `parse_ull(s, out)` with what `*out` holds before: the result, and what it
holds afterwards. -/
def parseUllInto (s : Bytes) (out : UInt64) : Int × UInt64 :=
  match parseUll s with
  | none => (-1, out)
  | some value => (0, value)

/-! ## What `strtoull` finds -/

/-- White space, one of the signs or none, digits, and text that does not go on
with a digit. -/
structure Scan (s sign digits rest : Bytes) : Prop where
  split : ∃ front, s = front ++ (sign ++ (digits ++ rest)) ∧ ∀ b ∈ front, isSpace b = true
  sign : sign = [] ∨ sign = [43] ∨ sign = [45]
  nonempty : digits ≠ []
  digits : ∀ b ∈ digits, isDigit b = true
  stops : ∀ b ∈ rest.head?, isDigit b = false

variable {s sign digits rest : Bytes}

/-- Where white space ends. -/
theorem Scan.body (h : Scan s sign digits rest) :
    s.dropWhile isSpace = sign ++ (digits ++ rest) := by
  obtain ⟨front, rfl, hfront⟩ := h.split
  obtain ⟨d, ds, hd⟩ := List.exists_cons_of_ne_nil h.nonempty
  have hdigit : isSpace d = false := not_isSpace_of_isDigit (h.digits d (by rw [hd]; simp))
  rw [List.dropWhile_append_of_pos hfront, hd]
  rcases h.sign with rfl | rfl | rfl
  · exact List.dropWhile_cons_of_neg (by simp [hdigit])
  · rfl
  · rfl

theorem Scan.negative_iff (h : Scan s sign digits rest) :
    (s.dropWhile isSpace).head? = some 45 ↔ sign = [45] := by
  rw [h.body]
  rcases h.sign with rfl | rfl | rfl
  · obtain ⟨d, ds, hd⟩ := List.exists_cons_of_ne_nil h.nonempty
    have hdigit := h.digits d (by rw [hd]; simp)
    rw [hd]
    refine iff_of_false ?_ (by decide)
    rintro ⟨⟩
    cases hdigit
  · exact iff_of_false (by simp) (by decide)
  · exact iff_of_true rfl rfl

theorem Scan.unsignedPart (h : Scan s sign digits rest) :
    Lib.CText.unsignedPart s = digits ++ rest := by
  have hbody := h.body
  have hnegative := h.negative_iff
  rw [Lib.CText.unsignedPart]
  rcases h.sign with rfl | rfl | rfl
  · have hplus : (s.dropWhile isSpace).head? ≠ some 43 := by
      obtain ⟨d, ds, hd⟩ := List.exists_cons_of_ne_nil h.nonempty
      have hdigit := h.digits d (by rw [hd]; simp)
      rw [hbody, hd]
      rintro ⟨⟩
      cases hdigit
    rw [if_neg (not_or.mpr ⟨fun h45 => absurd (hnegative.mp h45) (by decide), hplus⟩), hbody]
    rfl
  · rw [hbody]
    rfl
  · rw [hbody]
    rfl

theorem Scan.strtoull (h : Scan s sign digits rest) :
    Lib.CText.strtoull s =
      if 2 ^ 64 ≤ digitsValue digits then ⟨UInt64.ofNat (2 ^ 64 - 1), rest, true, true⟩
      else ⟨if sign = [45] then 0 - UInt64.ofNat (digitsValue digits)
        else UInt64.ofNat (digitsValue digits), rest, true, false⟩ := by
  obtain ⟨htake, hdrop⟩ := takeWhile_append_stop h.stops digits
  rw [List.takeWhile_eq_self_iff.mpr h.digits] at htake
  rw [List.dropWhile_eq_nil_iff.mpr h.digits, List.nil_append] at hdrop
  rw [strtoull_eq, h.unsignedPart, htake, hdrop, if_neg h.nonempty]
  simp only [h.negative_iff]

/-- Without digits behind white space and a sign there is nothing to find. -/
theorem scan_of_digits (h : (unsignedPart s).takeWhile isDigit ≠ []) :
    ∃ sign, Scan s sign ((unsignedPart s).takeWhile isDigit) ((unsignedPart s).dropWhile isDigit) := by
  have hdigits : ∀ b ∈ (unsignedPart s).takeWhile isDigit, isDigit b = true :=
    fun _ hb => List.mem_takeWhile_imp hb
  have hstops : ∀ b ∈ ((unsignedPart s).dropWhile isDigit).head?, isDigit b = false := by
    intro b hb
    have hne : (unsignedPart s).dropWhile isDigit ≠ [] := by
      intro hnil
      rw [hnil] at hb
      cases hb
    have hhead := List.head_dropWhile_not isDigit hne
    rw [List.head?_eq_some_head hne, Option.mem_some_iff] at hb
    rw [← hb]
    exact hhead
  have hsplit {sign : Bytes} (hsign : s.dropWhile isSpace = sign ++ unsignedPart s) :
      s = s.takeWhile isSpace ++
        (sign ++ ((unsignedPart s).takeWhile isDigit ++ (unsignedPart s).dropWhile isDigit)) := by
    rw [List.takeWhile_append_dropWhile, ← hsign, List.takeWhile_append_dropWhile]
  have hspace : ∀ b ∈ s.takeWhile isSpace, isSpace b = true := fun _ hb => List.mem_takeWhile_imp hb
  by_cases hsigned : (s.dropWhile isSpace).head? = some 45 ∨ (s.dropWhile isSpace).head? = some 43
  · have hunsigned : unsignedPart s = (s.dropWhile isSpace).tail := if_pos hsigned
    rcases hsigned with h45 | h43
    · obtain ⟨tail, htail⟩ := List.head?_eq_some_iff.mp h45
      exact ⟨[45], ⟨_, hsplit (by rw [hunsigned, htail]; rfl), hspace⟩, .inr (.inr rfl), h, hdigits, hstops⟩
    · obtain ⟨tail, htail⟩ := List.head?_eq_some_iff.mp h43
      exact ⟨[43], ⟨_, hsplit (by rw [hunsigned, htail]; rfl), hspace⟩, .inr (.inl rfl), h, hdigits, hstops⟩
  · have hunsigned : unsignedPart s = s.dropWhile isSpace := if_neg hsigned
    exact ⟨[], ⟨_, hsplit (by rw [hunsigned]; rfl), hspace⟩, .inl rfl, h, hdigits, hstops⟩

theorem Scan.parseUll (h : Scan s sign digits rest) :
    Syswatch.parseUll s =
      if digitsValue digits < 2 ^ 64 ∧ ∀ b ∈ rest, isSpace b = true then
        some (if sign = [45] then 0 - UInt64.ofNat (digitsValue digits)
          else UInt64.ofNat (digitsValue digits))
      else none := by
  rw [Syswatch.parseUll, h.strtoull]
  generalize (if sign = [45] then 0 - UInt64.ofNat (digitsValue digits)
    else UInt64.ofNat (digitsValue digits)) = value
  by_cases hsmall : digitsValue digits < 2 ^ 64
  · rw [if_neg (not_le.mpr hsmall)]
    by_cases hrest : ∀ b ∈ rest, isSpace b = true
    · rw [if_neg (by simp), if_pos (List.all_eq_true.mpr hrest), if_pos ⟨hsmall, hrest⟩]
    · rw [if_neg (by simp), if_neg fun hall => hrest (List.all_eq_true.mp hall),
        if_neg fun hok => hrest hok.2]
  · rw [if_pos (not_lt.mp hsmall), if_pos (.inl rfl), if_neg fun hok => hsmall hok.1]

theorem parseUll_no_digits (h : (unsignedPart s).takeWhile isDigit = []) :
    Syswatch.parseUll s = none := by
  rw [Syswatch.parseUll, strtoull_eq, if_pos h]
  rfl

/-! ## The language -/

/-- White space, the sign, digits of the number, and white space. -/
def Written (sign s : Bytes) (n : Nat) : Prop :=
  ∃ front digits back, s = front ++ (sign ++ (digits ++ back)) ∧
    (∀ b ∈ front, isSpace b = true) ∧ digits ≠ [] ∧ (∀ b ∈ digits, isDigit b = true) ∧
    digitsValue digits = n ∧ ∀ b ∈ back, isSpace b = true

/-- An optional plus sign. -/
def Unsigned (s : Bytes) (n : Nat) : Prop := Written [] s n ∨ Written [43] s n

def Negative (s : Bytes) (n : Nat) : Prop := Written [45] s n

theorem written_iff (hsign : sign = [] ∨ sign = [43] ∨ sign = [45]) {n : Nat} :
    Written sign s n ↔ ∃ digits rest, Scan s sign digits rest ∧ digitsValue digits = n ∧
      ∀ b ∈ rest, isSpace b = true := by
  constructor
  · rintro ⟨front, digits, back, hs, hfront, hne, hdigits, hn, hback⟩
    refine ⟨digits, back, ⟨⟨front, hs, hfront⟩, hsign, hne, hdigits, fun b hb => ?_⟩, hn, hback⟩
    have hspace := hback b (List.mem_of_head? hb)
    by_contra hdigit
    rw [not_isSpace_of_isDigit (Bool.eq_true_of_not_eq_false hdigit)] at hspace
    cases hspace
  · rintro ⟨digits, rest, h, hn, hrest⟩
    obtain ⟨front, hs, hfront⟩ := h.split
    exact ⟨front, digits, rest, hs, hfront, h.nonempty, h.digits, hn, hrest⟩

theorem Unsigned.parsed {n : Nat} (h : Unsigned s n) (hn : n < 2 ^ 64) :
    parseUll s = some (UInt64.ofNat n) := by
  have hread {sign : Bytes} (hsign : sign = [] ∨ sign = [43]) (hw : Written sign s n) :
      parseUll s = some (UInt64.ofNat n) := by
    have hplus : sign ≠ [45] := by rcases hsign with rfl | rfl <;> decide
    obtain ⟨digits, rest, hscan, rfl, hrest⟩ := (written_iff (or_assoc.mp (.inl hsign))).mp hw
    rw [hscan.parseUll, if_pos ⟨hn, hrest⟩, if_neg hplus]
  exact h.elim (hread (.inl rfl)) (hread (.inr rfl))

theorem Negative.parsed {n : Nat} (h : Negative s n) (hn : n < 2 ^ 64) :
    parseUll s = some (0 - UInt64.ofNat n) := by
  obtain ⟨digits, rest, hscan, rfl, hrest⟩ := (written_iff (.inr (.inr rfl))).mp h
  rw [hscan.parseUll, if_pos ⟨hn, hrest⟩, if_pos rfl]

/-- Nothing else is taken. -/
theorem parsed_cases {v : UInt64} (h : parseUll s = some v) :
    ∃ n < 2 ^ 64, Unsigned s n ∨ Negative s n := by
  by_cases hdigits : (unsignedPart s).takeWhile isDigit = []
  · rw [parseUll_no_digits hdigits] at h
    cases h
  · obtain ⟨sign, hscan⟩ := scan_of_digits hdigits
    rw [hscan.parseUll] at h
    split at h
    · next hok =>
      refine ⟨_, hok.1, ?_⟩
      rcases hscan.sign with rfl | rfl | rfl
      · exact .inl (.inl ((written_iff (.inl rfl)).mpr ⟨_, _, hscan, rfl, hok.2⟩))
      · exact .inl (.inr ((written_iff (.inr (.inl rfl))).mpr ⟨_, _, hscan, rfl, hok.2⟩))
      · exact .inr ((written_iff (.inr (.inr rfl))).mpr ⟨_, _, hscan, rfl, hok.2⟩)
    · cases h

/-- The sign of a text is settled by its first character behind white space. -/
theorem Negative.not_unsigned {n m : Nat} (h : Negative s n) : ¬ Unsigned s m := by
  obtain ⟨digits, rest, hscan, -⟩ := (written_iff (.inr (.inr rfl))).mp h
  have hminus := hscan.negative_iff.mpr rfl
  rintro (hw | hw)
  · obtain ⟨digits', rest', hscan', -⟩ := (written_iff (.inl rfl)).mp hw
    cases hscan'.negative_iff.mp hminus
  · obtain ⟨digits', rest', hscan', -⟩ := (written_iff (.inr (.inl rfl))).mp hw
    cases hscan'.negative_iff.mp hminus

/-- An unsigned number below 2^64 is stored, and every other text is refused with
the caller's variable left alone. -/
def Strict (s : Bytes) : Prop :=
  ∀ out, (∃ n < 2 ^ 64, Unsigned s n ∧ parseUllInto s out = (0, UInt64.ofNat n)) ∨
    (¬ ∃ n < 2 ^ 64, Unsigned s n) ∧ parseUllInto s out = (-1, out)

theorem Negative.not_strict {n : Nat} (h : Negative s n) (hn : n < 2 ^ 64) : ¬ Strict s := by
  intro hstrict
  rcases hstrict 0 with ⟨m, -, hm, -⟩ | ⟨-, hrefused⟩
  · exact h.not_unsigned hm
  · rw [parseUllInto, h.parsed hn] at hrefused
    cases hrefused

/-- **`parse_ull` is strict** on every text but a number below 2^64 with a minus sign. -/
theorem parse_ull_strict_iff (s : Bytes) : Strict s ↔ ¬ ∃ n < 2 ^ 64, Negative s n := by
  constructor
  · rintro h ⟨n, hn, hneg⟩
    exact hneg.not_strict hn h
  · intro hneg out
    by_cases hunsigned : ∃ n < 2 ^ 64, Unsigned s n
    · obtain ⟨n, hn, hs⟩ := hunsigned
      exact .inl ⟨n, hn, hs, by rw [parseUllInto, hs.parsed hn]⟩
    · refine .inr ⟨hunsigned, ?_⟩
      cases hread : parseUll s with
      | none => rw [parseUllInto, hread]
      | some v =>
        obtain ⟨n, hn, h | h⟩ := parsed_cases hread
        · exact absurd ⟨n, hn, h⟩ hunsigned
        · exact absurd ⟨n, hn, h⟩ hneg

/-- `-1` is taken, and stored as 2^64 - 1. -/
theorem minus_one_taken :
    parseUllInto (ascii "-1") 7 = (0, 18446744073709551615) ∧ ¬ Strict (ascii "-1") :=
  ⟨by decide, Negative.not_strict (n := 1)
    ⟨[], ascii "1", [], rfl, by decide, by decide, by decide, rfl, by decide⟩ (by decide)⟩

end Syswatch.ParseUll
