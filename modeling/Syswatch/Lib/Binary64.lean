import Mathlib.Algebra.Order.Field.Power
import Mathlib.Algebra.Order.Floor.Semifield
import Mathlib.Data.Int.Log
import Mathlib.Data.Rat.Floor
import Mathlib.Tactic.Linarith
import Mathlib.Tactic.NormNum
import Mathlib.Tactic.Positivity

/-! # Doubles and their shortest decimals

Magnitudes of IEEE 754 binary64 as exact rationals: the nearest one of a
rational, and a decimal with as few digits as possible that is rounded back. -/

namespace Syswatch.Lib.Binary64

/-! ## Rounding -/

/-- The nearest number, of two the even one. -/
def roundEven (q : ℚ) : ℕ :=
  let below := ⌊q⌋₊
  if q - below < 1 / 2 then below
  else if 1 / 2 < q - below then below + 1
  else if below % 2 = 0 then below else below + 1

/-- The exponent of the last place: 53 bits, but none below 2^-1074. -/
def ulpExponent (q : ℚ) : ℤ := max (-1074) (Int.log 2 q - 52)

/-- The nearest magnitude, with as large an exponent as it takes. -/
def nearest (q : ℚ) : ℚ := roundEven (q / 2 ^ ulpExponent q) * 2 ^ ulpExponent q

/-- A magnitude, but for a bound on its exponent. -/
def Representable (q : ℚ) : Prop := ∃ (m : ℕ) (e : ℤ), m ≤ 2 ^ 53 ∧ -1074 ≤ e ∧ q = m * 2 ^ e

theorem roundEven_natCast (n : ℕ) : roundEven n = n := by
  simp [roundEven]

theorem roundEven_le {q : ℚ} {n : ℕ} (hq : 0 ≤ q) (h : q < n) : roundEven q ≤ n := by
  have hbelow : ⌊q⌋₊ < n := (Nat.floor_lt hq).mpr h
  unfold roundEven
  dsimp only
  split_ifs <;> omega

theorem nearest_zero : nearest 0 = 0 := by
  have h := roundEven_natCast 0
  rw [Nat.cast_zero] at h
  rw [nearest, zero_div, h, Nat.cast_zero, zero_mul]

/-- A multiple of the last place is not rounded. -/
theorem nearest_multiple {q : ℚ} {n : ℕ} (h : q = n * 2 ^ ulpExponent q) : nearest q = q := by
  have hdiv : q / 2 ^ ulpExponent q = n := by
    rw [div_eq_iff (by positivity)]
    exact h
  rw [nearest, hdiv, roundEven_natCast]
  exact h.symm

theorem nearest_significand {m : ℕ} {e : ℤ} (hm : m < 2 ^ 53) (he : -1074 ≤ e) :
    nearest (m * 2 ^ e) = m * 2 ^ e := by
  rcases Nat.eq_zero_or_pos m with rfl | hpos
  · rw [Nat.cast_zero, zero_mul, nearest_zero]
  have hq : (0 : ℚ) < m * 2 ^ e := by positivity
  have hlt : (m * 2 ^ e : ℚ) < (2 : ℕ) ^ (53 + e) := by
    have hm' : (m : ℚ) < 2 ^ (53 : ℤ) := by exact_mod_cast hm
    rw [Nat.cast_ofNat, zpow_add₀ (by norm_num)]
    exact mul_lt_mul_of_pos_right hm' (by positivity)
  have hlog : Int.log 2 (m * 2 ^ e : ℚ) < 53 + e := (Int.lt_zpow_iff_log_lt (by norm_num) hq).mp hlt
  obtain ⟨k, hk⟩ := Int.eq_ofNat_of_zero_le (show 0 ≤ e - ulpExponent (m * 2 ^ e) by
    unfold ulpExponent
    omega)
  refine nearest_multiple (n := m * 2 ^ k) ?_
  have hsplit : e = k + ulpExponent (m * 2 ^ e) := by omega
  rw [Nat.cast_mul, Nat.cast_pow, Nat.cast_ofNat, mul_assoc, ← zpow_natCast, ← zpow_add₀ (by norm_num),
    ← hsplit]

theorem Representable.nearest {q : ℚ} (h : Representable q) : nearest q = q := by
  obtain ⟨m, e, hm, he, rfl⟩ := h
  rcases Nat.lt_or_eq_of_le hm with hlt | rfl
  · exact nearest_significand hlt he
  · have hcarry : ((2 ^ 53 : ℕ) : ℚ) * 2 ^ e = (2 ^ 52 : ℕ) * 2 ^ (e + 1) := by
      rw [zpow_add_one₀ (by norm_num)]
      push_cast
      ring
    rw [hcarry]
    exact nearest_significand (by norm_num) (by omega)

theorem nearest_representable {q : ℚ} (hq : 0 ≤ q) : Representable (Binary64.nearest q) := by
  refine ⟨roundEven (q / 2 ^ ulpExponent q), ulpExponent q, ?_, le_max_left _ _, rfl⟩
  refine roundEven_le (by positivity) ?_
  have hle : Int.log 2 q + 1 ≤ 53 + ulpExponent q := by
    unfold ulpExponent
    omega
  rw [div_lt_iff₀ (by positivity)]
  calc q < (2 : ℕ) ^ (Int.log 2 q + 1) := Int.lt_zpow_succ_log_self (by norm_num) q
    _ ≤ 2 ^ (53 + ulpExponent q) := by
      rw [Nat.cast_ofNat]
      exact zpow_le_zpow_right₀ (by norm_num) hle
    _ = ((2 ^ 53 : ℕ) : ℚ) * 2 ^ ulpExponent q := by
      rw [zpow_add₀ (by norm_num)]
      norm_cast

/-! ## Doubles -/

inductive Double where
  | nan
  | inf (negative : Bool)
  | finite (negative : Bool) (magnitude : ℚ)
  deriving DecidableEq

/-- The double nearest to a magnitude with a sign. -/
def Double.round (negative : Bool) (q : ℚ) : Double :=
  if 2 ^ 1024 ≤ nearest q then .inf negative else .finite negative (nearest q)

/-- A double that there is. -/
def Double.Proper : Double → Prop
  | .finite _ magnitude => 0 ≤ magnitude ∧ Representable magnitude ∧ magnitude < 2 ^ 1024
  | _ => True

theorem Double.round_proper (negative : Bool) {q : ℚ} (hq : 0 ≤ q) :
    (Double.round negative q).Proper := by
  unfold Double.round
  split_ifs with hlarge
  · trivial
  · exact ⟨by unfold nearest; positivity, nearest_representable hq, not_le.mp hlarge⟩

theorem Double.round_eq {negative : Bool} {q magnitude : ℚ} (hsmall : magnitude < 2 ^ 1024)
    (h : nearest q = magnitude) : Double.round negative q = .finite negative magnitude := by
  rw [Double.round, h, if_neg (not_le.mpr hsmall)]

/-! ## Shortest decimals -/

/-- `digits * 10 ^ exponent`. -/
structure Decimal where
  digits : ℕ
  exponent : ℤ

def Decimal.value (d : Decimal) : ℚ := d.digits * 10 ^ d.exponent

/-- The decimals of `n` digits about `x`, the nearest of them first. -/
def candidates (x : ℚ) (n : ℕ) : List Decimal :=
  let exponent := Int.log 10 x + 1 - n
  let scaled := x / 10 ^ exponent
  [⟨roundEven scaled, exponent⟩, ⟨⌊scaled⌋₊, exponent⟩, ⟨⌊scaled⌋₊ + 1, exponent⟩]

/-- The first decimal that is rounded to `x`, with one digit, with two, and so on. -/
def shortest (x : ℚ) : Option Decimal :=
  (List.range 1400).findSome? fun k => (candidates x (k + 1)).find? fun d => nearest d.value = x

/-- A number with `n` binary places has no more decimal places. -/
theorem scaled_natural (m k n : ℕ) :
    (m * 2 ^ ((k : ℤ) - n) : ℚ) / 10 ^ (-(n : ℤ)) = (m * 2 ^ k * 5 ^ n : ℕ) := by
  have hten : (10 : ℚ) ^ n = 2 ^ n * 5 ^ n := by
    rw [← mul_pow]
    norm_num
  rw [zpow_sub₀ (by norm_num), zpow_neg, zpow_natCast, zpow_natCast, zpow_natCast, div_inv_eq_mul, hten]
  push_cast
  field_simp

/-- At the last place of all magnitudes a decimal is exact. -/
theorem exact_candidate {m : ℕ} {e : ℤ} (he : -1074 ≤ e) {n : ℕ}
    (hn : Int.log 10 (m * 2 ^ e : ℚ) + 1 - n = -1074) :
    ∃ d ∈ candidates (m * 2 ^ e) n, d.value = m * 2 ^ e := by
  obtain ⟨k, hk⟩ := Int.eq_ofNat_of_zero_le (show 0 ≤ e + 1074 by omega)
  have hexponent : e = (k : ℤ) - (1074 : ℕ) := by omega
  have hscaled := scaled_natural m k 1074
  rw [← hexponent] at hscaled
  refine ⟨⟨_, _⟩, List.mem_cons_self, ?_⟩
  rw [Decimal.value, hn, ← Nat.cast_ofNat (R := ℤ) (n := 1074), hscaled, roundEven_natCast, ← hscaled,
    div_mul_cancel₀]
  positivity

/-- **Every magnitude has its decimal**: it is found, and it is read back. -/
theorem shortest_spec {x : ℚ} (hx : 0 < x) (hrep : Representable x) (hsmall : x < 2 ^ 1024) :
    ∃ d, shortest x = some d ∧ nearest d.value = x ∧ 0 < d.digits := by
  obtain ⟨m, e, -, he, rfl⟩ := id hrep
  have hm : 1 ≤ m := by
    refine Nat.pos_of_ne_zero ?_
    rintro rfl
    simp at hx
  have hlow : -1074 ≤ Int.log 10 (m * 2 ^ e : ℚ) := by
    refine (Int.zpow_le_iff_le_log (by norm_num) hx).mp ?_
    calc ((10 : ℕ) : ℚ) ^ (-1074 : ℤ) ≤ 2 ^ (-1074 : ℤ) := by
          rw [zpow_neg, zpow_neg]
          exact inv_anti₀ (by positivity) (zpow_le_zpow_left₀ (by norm_num) (by norm_num) (by norm_num))
      _ ≤ 2 ^ e := zpow_le_zpow_right₀ (by norm_num) he
      _ ≤ m * 2 ^ e := le_mul_of_one_le_left (by positivity) (by exact_mod_cast hm)
  have hhigh : Int.log 10 (m * 2 ^ e : ℚ) < 325 := by
    refine (Int.lt_zpow_iff_log_lt (by norm_num) hx).mp (hsmall.trans_le ?_)
    calc (2 : ℚ) ^ 1024 = (2 ^ 64) ^ 16 := by rw [← pow_mul]
      _ ≤ (10 ^ 20) ^ 16 := pow_le_pow_left₀ (by norm_num) (by norm_num) 16
      _ = 10 ^ 320 := by rw [← pow_mul]
      _ ≤ 10 ^ 325 := pow_le_pow_right₀ (by norm_num) (by norm_num)
      _ = ((10 : ℕ) : ℚ) ^ (325 : ℤ) := rfl
  obtain ⟨n, hn⟩ := Int.eq_ofNat_of_zero_le (show 0 ≤ Int.log 10 (m * 2 ^ e : ℚ) + 1074 by omega)
  obtain ⟨d, hd, hvalue⟩ := exact_candidate he (m := m) (n := n + 1) (by push_cast; omega)
  have hfound : (shortest (m * 2 ^ e)).isSome := by
    rw [shortest, List.isSome_findSome?, List.any_eq_true]
    refine ⟨n, List.mem_range.mpr (by omega), ?_⟩
    rw [List.find?_isSome]
    exact ⟨d, hd, by rw [hvalue, hrep.nearest, decide_eq_true rfl]⟩
  obtain ⟨d, hd⟩ := Option.isSome_iff_exists.mp hfound
  obtain ⟨k, -, hk⟩ := List.exists_of_findSome?_eq_some hd
  have hback : nearest d.value = m * 2 ^ e := by simpa using List.find?_some hk
  refine ⟨d, hd, hback, Nat.pos_of_ne_zero fun h0 => ?_⟩
  rw [Decimal.value, h0, Nat.cast_zero, zero_mul, nearest_zero] at hback
  exact hx.ne hback

end Syswatch.Lib.Binary64
