import Syswatch.Lib.CText

/-! # `sscanf` and the values it stores

A format is a list of directives. The first one that fails ends the reading, and
the arguments of the conversions behind it keep what they held. -/

namespace Syswatch.Lib.Scanf
open CText

inductive Part where
  | blanks
  | char (c : UInt8)
  | ull
  | skipInt
  /-- `%63[^:]` with the width and the byte it stops at. -/
  | upTo (width : Nat) (stop : UInt8)
  deriving DecidableEq

inductive Item where
  | num (n : UInt64)
  | text (s : Bytes)
  deriving DecidableEq

def Item.num? : Item → Option UInt64
  | .num n => some n
  | .text _ => none

/-- The conversions that are made; `%llu` reads what `strtoull` reads, and `%*d`
what `strtol` reads. -/
def items : List Part → Bytes → List Item
  | [], _ => []
  | .blanks :: fmt, s => items fmt (s.dropWhile isSpace)
  | .char c :: fmt, s => if s.head? = some c then items fmt s.tail else []
  | .ull :: fmt, s => if (strtoull s).converted then .num (strtoull s).value :: items fmt (strtoull s).rest else []
  | .skipInt :: fmt, s => if (strtol s).converted then items fmt (strtol s).rest else []
  | .upTo width stop :: fmt, s =>
    let word := (s.takeWhile (· != stop)).take width
    if word = [] then [] else .text word :: items fmt (s.drop word.length)

/-- The numbers stored by a format without text conversions. -/
def numbers (fmt : List Part) (s : Bytes) : List UInt64 := (items fmt s).filterMap Item.num?

/-- Ordinary characters. -/
def literal (s : Bytes) : List Part := s.map .char

def Part.converts : Part → Bool
  | .ull | .upTo .. => true
  | _ => false

theorem items_length_le (fmt : List Part) (s : Bytes) :
    (items fmt s).length ≤ (fmt.filter Part.converts).length := by
  induction fmt generalizing s with
  | nil => exact le_rfl
  | cons part fmt ih =>
    cases part with
    | blanks => exact ih _
    | char c =>
      rw [items]
      split
      · exact ih _
      · exact Nat.zero_le _
    | ull =>
      rw [items]
      split
      · exact Nat.succ_le_succ (ih _)
      · exact Nat.zero_le _
    | skipInt =>
      rw [items]
      split
      · exact ih _
      · exact Nat.zero_le _
    | upTo width stop =>
      rw [items]
      split
      · exact Nat.zero_le _
      · exact Nat.succ_le_succ (ih _)

theorem numbers_length_le (fmt : List Part) (s : Bytes) :
    (numbers fmt s).length ≤ (fmt.filter Part.converts).length :=
  (List.length_filterMap_le ..).trans (items_length_le fmt s)

/-- Directives that convert nothing add nothing. -/
theorem items_of_no_conversion {fmt : List Part} (h : fmt.filter Part.converts = []) (s : Bytes) :
    items fmt s = [] := by
  have := items_length_le fmt s
  rw [h] at this
  exact List.length_eq_zero_iff.mp (Nat.le_zero.mp this)

/-- A word that the stop byte follows is read whole. -/
theorem upTo_whole {width : Nat} {stop : UInt8} {s : Bytes}
    (h : (s.drop ((s.takeWhile (· != stop)).take width).length).head? = some stop) :
    (s.takeWhile (· != stop)).take width = s.takeWhile (· != stop) ∧ stop ∈ s := by
  refine ⟨?_, List.mem_of_mem_drop (List.mem_of_head? h)⟩
  apply List.take_of_length_le
  by_contra hlong
  have hw : ((s.takeWhile (· != stop)).take width).length = width := by
    rw [List.length_take]
    omega
  have hhead : ((s.takeWhile (· != stop)).drop width).head? = some stop := by
    have hsplit := congrArg (List.drop width) (List.takeWhile_append_dropWhile (p := (· != stop)) (l := s))
    rw [hw, ← hsplit, List.drop_append_of_le_length (by omega), List.head?_append_of_ne_nil] at h
    · exact h
    · rw [ne_eq, List.drop_eq_nil_iff]
      omega
  have hmem := List.mem_takeWhile_imp (List.mem_of_mem_drop (List.mem_of_head? hhead))
  simp at hmem

theorem items_upTo {width : Nat} {stop : UInt8} {w : Bytes} (hne : w ≠ []) (hw : stop ∉ w)
    (hwidth : w.length ≤ width) (fmt : List Part) (rest : Bytes) :
    items (.upTo width stop :: .char stop :: fmt) (w ++ stop :: rest) = .text w :: items fmt rest := by
  have hword : (w ++ stop :: rest).takeWhile (· != stop) = w := by
    rw [List.takeWhile_append_of_pos]
    · simp
    · intro b hb
      rw [bne_iff_ne]
      rintro rfl
      exact hw hb
  rw [items, hword, List.take_of_length_le hwidth, if_neg hne, List.drop_left, items,
    if_pos List.head?_cons]
  rfl

/-- `" %llu"` on a number with anything but a digit behind it. -/
theorem items_number {gap ds rest : Bytes} (hgap : ∀ b ∈ gap, isSpace b = true) (hne : ds ≠ [])
    (hds : ∀ b ∈ ds, isDigit b = true) (hsmall : digitsValue ds < 2 ^ 64)
    (hrest : ∀ b ∈ rest.head?, isDigit b = false) (fmt : List Part) :
    items (.blanks :: .ull :: fmt) (gap ++ (ds ++ rest)) =
      .num (UInt64.ofNat (digitsValue ds)) :: items fmt rest := by
  obtain ⟨c, cs, hc⟩ := List.exists_cons_of_ne_nil hne
  have hspace : isSpace c = false := not_isSpace_of_isDigit (hds c (by rw [hc]; simp))
  have hblanks : (gap ++ (ds ++ rest)).dropWhile isSpace = ds ++ rest := by
    rw [List.dropWhile_append_of_pos hgap, hc, List.cons_append,
      List.dropWhile_cons_of_neg (by simp [hspace])]
  have hdigits := strtoull_digits hne hds hsmall
  have hread : strtoull (ds ++ rest) = ⟨UInt64.ofNat (digitsValue ds), rest, true, false⟩ := by
    rw [strtoull_append (by rw [hdigits]) hrest, hdigits]
    rfl
  rw [items, hblanks, items, hread, if_pos rfl]

/-! ## The number of conversions -/

theorem sscanf_chars_pos {t : Bytes} {fmt : List Directive} {s : Bytes} {n : Nat}
    (h : sscanf (.chars t :: fmt) s = n + 1) : ∃ rest, s = t ++ rest ∧ sscanf fmt rest = n + 1 := by
  rw [sscanf] at h
  split at h
  · rename_i hpre
    obtain ⟨rest, rfl⟩ := hpre
    exact ⟨rest, rfl, by rwa [List.drop_left] at h⟩
  · cases h

theorem sscanf_chars_append (t : Bytes) (fmt : List Directive) (s : Bytes) :
    sscanf (.chars t :: fmt) (t ++ s) = sscanf fmt s := by
  rw [sscanf, if_pos (List.prefix_append t s), List.drop_left]

theorem sscanf_int_pos {fmt : List Directive} {s : Bytes} {n : Nat}
    (h : sscanf (.int :: fmt) s = n + 1) :
    (strtol s).converted = true ∧ sscanf fmt (strtol s).rest = n := by
  rw [sscanf] at h
  split at h
  · rename_i hconverted
    exact ⟨hconverted, Nat.succ.inj h⟩
  · cases h

/-- `%d` reads no more of a text that goes on with something else than a digit. -/
theorem sscanf_int_append {s t : Bytes} (hs : (strtol s).converted = true)
    (ht : ∀ b ∈ t.head?, isDigit b = false) (fmt : List Directive) :
    sscanf (.int :: fmt) (s ++ t) = sscanf fmt ((strtol s).rest ++ t) + 1 := by
  rw [sscanf, strtol_append hs ht]
  exact if_pos hs

/-- `"%d%c"` converts once: nothing stands behind the number. -/
theorem sscanf_int_last {s : Bytes} (h : sscanf [.int, .char] s = 1) :
    (strtol s).converted = true ∧ (strtol s).rest = [] := by
  obtain ⟨hconverted, hrest⟩ := sscanf_int_pos h
  refine ⟨hconverted, ?_⟩
  cases hr : (strtol s).rest with
  | nil => rfl
  | cons b rest =>
    rw [hr] at hrest
    cases hrest

/-- Text behind the number is a second conversion. -/
theorem sscanf_int_last_append {s t : Bytes} (h : sscanf [.int, .char] s = 1) (hne : t ≠ [])
    (ht : ∀ b ∈ t.head?, isDigit b = false) : sscanf [.int, .char] (s ++ t) = 2 := by
  obtain ⟨hconverted, hrest⟩ := sscanf_int_last h
  obtain ⟨b, t, rfl⟩ := List.exists_cons_of_ne_nil hne
  rw [sscanf_int_append hconverted ht, hrest]
  rfl

/-- A text that is read up to its end ends in a digit. -/
theorem last_of_int {s : Bytes} (hconverted : (strtol s).converted = true)
    (hrest : (strtol s).rest = []) : ∃ b, s.getLast? = some b ∧ isDigit b = true := by
  by_cases hdigits : (unsignedPart s).takeWhile isDigit = []
  · rw [strtol_eq, if_pos hdigits] at hconverted
    cases hconverted
  · rw [strtol_eq, if_neg hdigits] at hrest
    have hall : (unsignedPart s).takeWhile isDigit = unsignedPart s := by
      have := List.takeWhile_append_dropWhile (p := isDigit) (l := unsignedPart s)
      rwa [show (unsignedPart s).dropWhile isDigit = [] from hrest, List.append_nil] at this
    have hne : unsignedPart s ≠ [] := hall ▸ hdigits
    have hsuffix : unsignedPart s <:+ s := by
      rw [unsignedPart]
      split
      · exact (List.tail_suffix _).trans (List.dropWhile_suffix _)
      · exact List.dropWhile_suffix _
    obtain ⟨front, hfront⟩ := hsuffix
    have hlast : s.getLast? = (unsignedPart s).getLast? := by
      conv_lhs => rw [← hfront]
      exact List.getLast?_append_of_ne_nil _ hne
    refine ⟨(unsignedPart s).getLast hne, ?_, ?_⟩
    · rw [hlast, List.getLast?_eq_some_getLast hne]
    · exact List.takeWhile_eq_self_iff.mp hall _ (List.getLast_mem hne)

end Syswatch.Lib.Scanf
