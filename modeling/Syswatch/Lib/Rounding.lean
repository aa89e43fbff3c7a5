import Syswatch.Lib.Binary64

/-! # Arithmetic on doubles

Numbers are rationals, and an operation gives its exact result, rounded. A program
that computes with `double` is written with `fl` around each of its operations, for
any rounding: that of binary64 is how it runs, and no rounding at all is the arithmetic
that is meant. Results are below 2^1024, so that none is infinite. -/

namespace Syswatch.Lib
open Binary64

/-- How the result of an operation is rounded. -/
class Rounding where
  fl : ℚ → ℚ
  fl_nonneg : ∀ {q}, 0 ≤ q → 0 ≤ fl q
  fl_le : ∀ {q} {k : ℕ}, 0 ≤ q → q ≤ 2 ^ k → fl q ≤ 2 ^ k

namespace Rounding

/-- The results as they are. -/
@[reducible] def exact : Rounding := ⟨id, id, fun _ => id⟩

@[simp] theorem fl_exact (q : ℚ) : @fl exact q = q := rfl

theorem nearest_nonneg (q : ℚ) : 0 ≤ nearest q := by
  unfold nearest
  positivity

/-- A power of two is a double, and what is below it is not rounded above it. -/
theorem nearest_le {q : ℚ} {k : ℕ} (hq : 0 ≤ q) (h : q ≤ 2 ^ k) : nearest q ≤ 2 ^ k := by
  rcases h.lt_or_eq with hlt | rfl
  · have hulp : ulpExponent q ≤ k := by
      unfold ulpExponent
      have hlog : Int.log 2 q ≤ k := by
        rcases hq.lt_or_eq with hpos | rfl
        · have := (Int.lt_zpow_iff_log_lt (b := 2) (by norm_num) hpos (x := (k : ℤ))).mp (by exact_mod_cast hlt)
          omega
        · simp
      omega
    obtain ⟨n, hn⟩ := Int.eq_ofNat_of_zero_le (sub_nonneg.mpr hulp)
    have hsplit : (2 ^ k : ℚ) = (2 ^ n : ℕ) * 2 ^ ulpExponent q := by
      rw [Nat.cast_pow, Nat.cast_ofNat, ← zpow_natCast, ← zpow_natCast, ← zpow_add₀ (by norm_num), ← hn,
        sub_add_cancel]
    rw [hsplit] at hlt ⊢
    have hfloor : roundEven (q / 2 ^ ulpExponent q) ≤ 2 ^ n :=
      roundEven_le (by positivity) ((div_lt_iff₀ (by positivity)).mpr hlt)
    exact mul_le_mul_of_nonneg_right (by exact_mod_cast hfloor) (by positivity)
  · exact (Representable.nearest ⟨1, k, by norm_num, by omega, by simp⟩).le

/-- To the nearest double, of two the even one. -/
instance binary64 : Rounding where
  fl q := if q < 0 then -nearest (-q) else nearest q
  fl_nonneg {q} h := by
    rw [if_neg (not_lt.mpr h)]
    exact nearest_nonneg q
  fl_le hq h := by
    rw [if_neg (not_lt.mpr hq)]
    exact nearest_le hq h

/-- Three of two thousand are less than 0.15 percent. -/
example : fl (100 * fl (3 / 2000)) < 15 / 100 := by decide +kernel

end Rounding
end Syswatch.Lib
