import Syswatch.Cpu

/-! # Rates from two snapshots

`disk_compute_stats` and `net_compute_stats` are one join: every device of the
current snapshot that the previous one also lists gets the increase of its two
counters, in bytes, divided by the interval. `CounterKind` is what differs. -/

namespace Syswatch
open Lib.CText Lib.Rounding

/-- A kind of device: its two counters, the bytes they count in, and the entry
of the statistics that holds its two rates. -/
structure CounterKind (γ ρ : Type) where
  name : γ → CString 32
  first : γ → UInt64
  second : γ → UInt64
  unit : ℚ
  unit_pow : ∃ k : ℕ, unit = 2 ^ k
  entry : CString 32 → ℚ → ℚ → ρ
  rates : ρ → CString 32 × ℚ × ℚ
  rates_entry : ∀ n a b, rates (entry n a b) = (n, a, b)

theorem interval_pos {intervalSec : Int32} (h : 1 ≤ intervalSec) : 0 < intervalSec := by
  rw [Int32.lt_iff_toInt_lt]
  rw [Int32.le_iff_toInt_le] at h
  exact lt_of_lt_of_le (by decide) h

theorem interval_one_le {intervalSec : Int32} (h : 0 < intervalSec) :
    (1 : ℚ) ≤ intervalSec.toInt := by
  have : 0 < intervalSec.toInt := by simpa [Int32.lt_iff_toInt_lt] using h
  exact_mod_cast this

namespace CounterKind

variable {γ ρ : Type} (K : CounterKind γ ρ)

theorem unit_pos : 0 < K.unit := by
  obtain ⟨k, hk⟩ := K.unit_pow
  rw [hk]
  positivity

/-- `find_disk` and `find_iface`: the first device of that name. -/
def find (snap : List γ) (name : CString 32) : Option γ := snap.find? fun d => K.name d = name

variable [Lib.Rounding]

/-- The increase in bytes. What is counted in bytes is not multiplied. -/
def increase (prev curr : UInt64) : ℚ :=
  let delta := fl (counterDelta prev curr).toNat
  if K.unit = 1 then delta else fl (delta * K.unit)

def rate (prev curr : UInt64) (seconds : ℚ) : ℚ := fl (K.increase prev curr / seconds)

/-- The entry of one device; its name is copied between arrays of one size. -/
def rateEntry (seconds : ℚ) (prev curr : γ) : ρ :=
  K.entry (K.name curr) (K.rate (K.first prev) (K.first curr) seconds)
    (K.rate (K.second prev) (K.second curr) seconds)

/-- The loop over the current snapshot. `limit` is the size of the output array. -/
def computeLoop (prev : List γ) (seconds : ℚ) (limit : Nat) : List γ → List ρ → List ρ
  | [], out => out
  | c :: rest, out =>
    if out.length < limit then
      match K.find prev (K.name c) with
      | none => computeLoop prev seconds limit rest out
      | some p => computeLoop prev seconds limit rest (out ++ [K.rateEntry seconds p c])
    else out

/-- The guard keeps the output array from overflowing. -/
theorem computeLoop_length_le (prev : List γ) (seconds : ℚ) (limit : Nat) (curr : List γ)
    (out : List ρ) (h : out.length ≤ limit) :
    (K.computeLoop prev seconds limit curr out).length ≤ limit := by
  induction curr generalizing out with
  | nil => exact h
  | cons c rest ih =>
    rw [computeLoop]
    split
    · split
      · exact ih out h
      · exact ih _ (by rw [List.length_append, List.length_singleton]; omega)
    · exact h

/-- The join, in the order of the current snapshot. -/
def averaged (seconds : ℚ) (prev curr : List γ) : List ρ :=
  curr.filterMap fun c => (K.find prev (K.name c)).map fun p => K.rateEntry seconds p c

theorem computeLoop_eq (prev : List γ) (seconds : ℚ) (limit : Nat) (curr : List γ) (out : List ρ)
    (h : out.length + curr.length ≤ limit) :
    K.computeLoop prev seconds limit curr out = out ++ K.averaged seconds prev curr := by
  induction curr generalizing out with
  | nil => simp [computeLoop, averaged]
  | cons c rest ih =>
    rw [List.length_cons] at h
    rw [computeLoop, if_pos (by omega)]
    cases hf : K.find prev (K.name c) with
    | none =>
      simp only
      rw [ih out (by omega)]
      simp [averaged, hf]
    | some p =>
      simp only
      rw [ih _ (by rw [List.length_append, List.length_singleton]; omega)]
      simp [averaged, hf]

theorem increase_bounds (prev curr : UInt64) :
    0 ≤ K.increase prev curr ∧ K.increase prev curr ≤ 2 ^ 64 * K.unit := by
  obtain ⟨k, hk⟩ := K.unit_pow
  have hdelta : 0 ≤ fl (counterDelta prev curr).toNat ∧ fl (counterDelta prev curr).toNat ≤ 2 ^ 64 :=
    ⟨fl_nonneg (Nat.cast_nonneg _), fl_le (Nat.cast_nonneg _)
      (by exact_mod_cast (counterDelta prev curr).toNat_lt.le)⟩
  unfold increase
  dsimp only
  split_ifs with hunit
  · rw [hunit, mul_one]
    exact hdelta
  · have hpos : 0 ≤ fl (counterDelta prev curr).toNat * K.unit := mul_nonneg hdelta.1 K.unit_pos.le
    refine ⟨fl_nonneg hpos, ?_⟩
    have hle := mul_le_mul_of_nonneg_right hdelta.2 K.unit_pos.le
    rw [hk, ← pow_add] at hle ⊢
    exact fl_le (hk ▸ hpos) hle

/-- A rate is the 64-bit increase, in bytes, over a second or more. -/
theorem rate_bounds (prev curr : UInt64) {seconds : ℚ} (h : 1 ≤ seconds) :
    0 ≤ K.rate prev curr seconds ∧ K.rate prev curr seconds ≤ 2 ^ 64 * K.unit := by
  obtain ⟨hpos, hle⟩ := K.increase_bounds prev curr
  have hquotient : 0 ≤ K.increase prev curr / seconds := div_nonneg hpos (zero_le_one.trans h)
  have hbound := (div_le_self hpos h).trans hle
  obtain ⟨k, hk⟩ := K.unit_pow
  rw [hk, ← pow_add] at hbound ⊢
  exact ⟨fl_nonneg hquotient, fl_le hquotient hbound⟩

omit [Lib.Rounding] in
/-- What the rounded rate is close to. -/
theorem rate_exact (prev curr : UInt64) (seconds : ℚ) :
    @rate γ ρ K .exact prev curr seconds = (counterDelta prev curr).toNat * K.unit / seconds := by
  simp only [rate, increase, fl_exact]
  split_ifs with hunit
  · rw [hunit, mul_one]
  · rfl

/-- Every entry is that of a device both snapshots list under one name. -/
theorem mem_averaged {seconds : ℚ} {prev curr : List γ} {e : ρ}
    (h : e ∈ K.averaged seconds prev curr) :
    ∃ p ∈ prev, ∃ c ∈ curr, K.name p = K.name c ∧ e = K.rateEntry seconds p c := by
  obtain ⟨c, hc, he⟩ := List.mem_filterMap.mp h
  obtain ⟨p, hp, rfl⟩ := Option.map_eq_some_iff.mp he
  exact ⟨p, List.mem_of_find?_eq_some hp, c, hc, by simpa using List.find?_some hp, rfl⟩

end CounterKind

end Syswatch
