import Syswatch.ConfigRange
import Syswatch.OutputTriggers

/-! # The waits between two POSTs

The wait doubles with every attempt and is cut to a minute afterwards. The shift
is one of 32 bits: with many retries it runs over, or its amount is too large
for C. -/

namespace Syswatch.Backoff
open Lib.CText ConfigRange OutputDelivery OutputTriggers

/-! ## One wait -/

/-- The wait as it is meant: doubled with each attempt, at most a minute. -/
def capped (base attempt : Nat) : Nat := min 60 (base * 2 ^ attempt)

/-- `retry_backoff_seconds`, 0 counting as 1. -/
def baseOf (retryBackoffSeconds : Int32) : Nat := max retryBackoffSeconds.toInt.toNat 1

theorem shiftLeft_toNat (x : UInt32) {a : Nat} (h : a < 32) :
    (x <<< UInt32.ofNat a).toNat = x.toNat * 2 ^ a % 2 ^ 32 := by
  rw [UInt32.toNat_shiftLeft, UInt32.toNat_ofNat', Nat.mod_eq_of_lt (by omega : a < 2 ^ 32),
    Nat.mod_eq_of_lt h, Nat.shiftLeft_eq]

theorem base_toNat {b : Int32} (h : 0 ≤ b.toInt) :
    (if b.toUInt32 = 0 then 1 else b.toUInt32).toNat = baseOf b := by
  have hnat : b.toUInt32.toNat = b.toInt.toNat :=
    Int32.toNat_toUInt32_of_le (Int32.le_iff_toInt_le.mpr h)
  rw [baseOf, ← hnat]
  split
  · next h0 =>
    rw [h0]
    rfl
  · next h0 =>
    have : b.toUInt32.toNat ≠ 0 := fun hn => h0 (UInt32.toNat_inj.mp hn)
    omega

/-- The product runs over into nothing exactly when its low 32 bits are 0. -/
theorem wrapped_eq_iff {base a : Nat} (hbase : 0 < base) (hle : base ≤ 3600) (ha : a < 32) :
    min 60 (base * 2 ^ a % 2 ^ 32) = capped base a ↔ ¬2 ^ (32 - a) ∣ base := by
  have hsplit : 2 ^ a * 2 ^ (32 - a) = 2 ^ 32 := by rw [← pow_add]; congr 1; omega
  have hmod : base * 2 ^ a % 2 ^ 32 = 2 ^ a * (base % 2 ^ (32 - a)) := by
    rw [← hsplit, Nat.mul_comm base, Nat.mul_mod_mul_left]
  rw [Nat.dvd_iff_mod_eq_zero, capped, hmod]
  by_cases hsmall : base < 2 ^ (32 - a)
  · rw [Nat.mod_eq_of_lt hsmall, Nat.mul_comm base]
    exact iff_of_true rfl hbase.ne'
  · have hbig : 60 ≤ base * 2 ^ a := by
      calc 60 ≤ 2 ^ 32 := by norm_num
        _ = 2 ^ a * 2 ^ (32 - a) := hsplit.symm
        _ ≤ base * 2 ^ a := by rw [Nat.mul_comm base]; gcongr; omega
    have ha' : 21 ≤ a := by
      by_contra hlt
      have : 2 ^ 12 ≤ 2 ^ (32 - a) := Nat.pow_le_pow_right (by decide) (by omega)
      omega
    rw [min_eq_left hbig]
    by_cases hr : base % 2 ^ (32 - a) = 0
    · rw [hr]
      simp
    · refine iff_of_true (min_eq_left ?_) hr
      calc 60 ≤ 2 ^ 21 * 1 := by norm_num
        _ ≤ 2 ^ a * (base % 2 ^ (32 - a)) := by gcongr <;> omega

theorem baseOf_range {b : Int32} (h : b.toInt ≤ 3600) : 0 < baseOf b ∧ baseOf b ≤ 3600 := by
  rw [baseOf]
  omega

/-- The wait behind one attempt is the one that is meant, exactly when the shift
is less than the width and leaves something. -/
theorem backoffSeconds_iff {b : Int32} (hb : 0 ≤ b.toInt ∧ b.toInt ≤ 3600) (a : Nat) :
    (∃ w, backoffSeconds b a = some w ∧ w.toNat = capped (baseOf b) a) ↔
      a < 32 ∧ ¬2 ^ (32 - a) ∣ baseOf b := by
  obtain ⟨hpos, hle⟩ := baseOf_range hb.2
  by_cases ha : a < 32
  · have hcap (w : UInt32) : (if w > 60 then 60 else w).toNat = min 60 w.toNat := by
      split
      · next hgt => exact (min_eq_left (UInt32.lt_iff_toNat_lt.mp hgt).le).symm
      · next hgt => exact (min_eq_right (UInt32.le_iff_toNat_le.mp (UInt32.not_lt.mp hgt))).symm
    rw [and_iff_right ha, ← wrapped_eq_iff hpos hle ha]
    unfold backoffSeconds
    dsimp only
    rw [if_pos ha]
    simp only [Option.some.injEq, exists_eq_left', hcap, shiftLeft_toNat _ ha, base_toNat hb.1]
  · refine iff_of_false ?_ fun h => ha h.1
    rintro ⟨w, hw, -⟩
    rw [backoffSeconds, if_neg ha] at hw
    cases hw

theorem capped_mono (base : Nat) {a a' : Nat} (h : a ≤ a') : capped base a ≤ capped base a' := by
  unfold capped
  gcongr
  decide

theorem one_le_capped {base : Nat} (h : 0 < base) (a : Nat) : 1 ≤ capped base a :=
  le_min (by decide) (Nat.mul_pos h (Nat.two_pow_pos a))

/-! ## The waits of one call -/

/-- Every wait is the one that is meant; they never decrease and last a second
at least. -/
def CappedWaits (base : Nat) (sleeps : List (Option UInt32)) : Prop :=
  ∃ waits : List UInt32, sleeps = waits.map some ∧
    waits.map UInt32.toNat = (List.range waits.length).map (capped base) ∧
    waits.Pairwise (· ≤ ·) ∧ ∀ w ∈ waits, 1 ≤ w

/-- The order follows from the lengths. -/
theorem cappedWaits_of {base n : Nat} {wait : Nat → Option UInt32} (hbase : 0 < base)
    (h : ∀ a < n, ∃ w, wait a = some w ∧ w.toNat = capped base a) :
    CappedWaits base ((List.range n).map wait) := by
  have hget {a : Nat} (ha : a < n) : ((wait a).getD 0).toNat = capped base a := by
    obtain ⟨w, hw, hn⟩ := h a ha
    rw [hw]
    exact hn
  refine ⟨(List.range n).map fun a => (wait a).getD 0, ?_, ?_, ?_, ?_⟩
  · rw [List.map_map]
    refine List.map_congr_left fun a ha => ?_
    obtain ⟨w, hw, -⟩ := h a (List.mem_range.mp ha)
    simp [hw]
  · rw [List.map_map, List.length_map, List.length_range]
    exact List.map_congr_left fun a ha => hget (List.mem_range.mp ha)
  · refine List.pairwise_map.mpr (List.pairwise_lt_range.imp_of_mem fun {a a'} ha ha' hlt => ?_)
    rw [UInt32.le_iff_toNat_le, hget (List.mem_range.mp ha), hget (List.mem_range.mp ha')]
    exact capped_mono base hlt.le
  · intro w hw
    obtain ⟨a, ha, rfl⟩ := List.mem_map.mp hw
    rw [UInt32.le_iff_toNat_le, hget (List.mem_range.mp ha)]
    exact one_le_capped hbase a

theorem CappedWaits.wait {base n : Nat} {wait : Nat → Option UInt32}
    (h : CappedWaits base ((List.range n).map wait)) {a : Nat} (ha : a < n) :
    ∃ w, wait a = some w ∧ w.toNat = capped base a := by
  obtain ⟨waits, hwaits, hcapped, -⟩ := h
  have hlen : waits.length = n := by simpa using (congrArg List.length hwaits).symm
  have ha' : a < waits.length := by omega
  refine ⟨waits[a], ?_, ?_⟩
  · simpa [ha, ha'] using congrArg (·[a]?) hwaits
  · simpa [ha'] using congrArg (·[a]?) hcapped

/-- The waits of a call are those behind its attempts but the last. -/
theorem attemptLoop_sleeps (b : Int32) (outcome : Nat → HttpOutcome) (left attempt : Nat) :
    (attemptLoop b outcome left attempt).sleeps =
      (List.range' attempt ((attemptLoop b outcome left attempt).performed - 1)).map
        (backoffSeconds b) := by
  induction left generalizing attempt with
  | zero => rfl
  | succ left ih =>
    rw [attemptLoop]
    cases verdict (outcome attempt) with
    | delivered | refused => rfl
    | retry =>
      dsimp only
      rw [ih (attempt + 1), Nat.add_sub_cancel]
      cases left with
      | zero => rfl
      | succ left =>
        have hpos := attemptLoop_performed b outcome (attempt + 1) left.succ_pos
        obtain ⟨n, hn⟩ := Nat.exists_eq_succ_of_ne_zero hpos.ne'
        rw [hn, if_pos left.succ_pos, Nat.succ_sub_one, List.range'_succ]
        rfl

theorem attemptLoop_performed_le (b : Int32) (outcome : Nat → HttpOutcome) (left attempt : Nat) :
    (attemptLoop b outcome left attempt).performed ≤ left := by
  induction left generalizing attempt with
  | zero => exact Nat.le_refl 0
  | succ left ih =>
    rw [attemptLoop]
    cases verdict (outcome attempt) with
    | delivered | refused => exact Nat.succ_le_succ left.zero_le
    | retry => exact Nat.succ_le_succ (ih (attempt + 1))

/-- A receiver that is never reached is tried as often as is allowed. -/
theorem attemptLoop_exhausted (b : Int32) (left attempt : Nat) :
    (attemptLoop b (fun _ => .transportError) left attempt).performed = left := by
  induction left generalizing attempt with
  | zero => rfl
  | succ left ih => exact congrArg (· + 1) (ih (attempt + 1))

/-- Whether all waits of a call are as meant depends on its longest wait. -/
theorem cappedWaits_iff {b : Int32} (hb : 0 ≤ b.toInt ∧ b.toInt ≤ 3600) (retries : Nat) :
    (∀ outcome, CappedWaits (baseOf b) (attemptLoop b outcome (retries + 1) 0).sleeps) ↔
      retries ≤ 32 ∧ ¬2 ^ (33 - retries) ∣ baseOf b := by
  obtain ⟨hpos, hle⟩ := baseOf_range hb.2
  simp only [attemptLoop_sleeps, ← List.range_eq_range']
  constructor
  · intro h
    have hall := h fun _ => .transportError
    rw [attemptLoop_exhausted, Nat.add_sub_cancel] at hall
    cases retries with
    | zero =>
      refine ⟨by decide, fun hdvd => ?_⟩
      have := Nat.le_of_dvd hpos hdvd
      omega
    | succ last =>
      obtain ⟨hlt, hdvd⟩ := (backoffSeconds_iff hb last).mp (hall.wait last.lt_succ_self)
      exact ⟨hlt, by rwa [show 33 - (last + 1) = 32 - last by omega]⟩
  · rintro ⟨hretries, hdvd⟩ outcome
    refine cappedWaits_of hpos fun a ha => (backoffSeconds_iff hb a).mpr ?_
    have hperf := attemptLoop_performed_le b outcome (retries + 1) 0
    refine ⟨by omega, fun h => hdvd (dvd_trans ?_ h)⟩
    exact Nat.pow_dvd_pow 2 (by omega)

/-! ## From the configuration file to the waits -/

/-- The two retry settings of the configuration are taken over. -/
structure Retries {ι : Type} (maxAttempts backoffSeconds : Int32) (s : OutputState ι) : Prop where
  maxAttempts : s.retryMaxAttempts = maxAttempts
  backoffSeconds : s.retryBackoffSeconds = backoffSeconds

theorem outputInit_retries {ι : Type} {env : InitEnv} {cfg : SyswatchConfig} {g s : OutputState ι}
    (hr : 0 ≤ cfg.outputRetryMaxAttempts.toInt) (hb : 0 ≤ cfg.outputRetryBackoffSeconds.toInt)
    (h : outputInit ι env (some cfg) g = (0, none, s)) :
    Retries cfg.outputRetryMaxAttempts cfg.outputRetryBackoffSeconds s := by
  have hinitial : Retries cfg.outputRetryMaxAttempts cfg.outputRetryBackoffSeconds
      (initialOutput ι cfg) :=
    ⟨if_pos (Int32.le_iff_toInt_le (x := 0).mpr hr), if_pos (Int32.le_iff_toInt_le (x := 0).mpr hb)⟩
  simp only [outputInit] at h
  split at h
  · cases h
    exact hinitial
  · split at h
    · split at h
      · cases h
      · split at h
        · cases h
        · cases h
          exact ⟨hinitial.1, hinitial.2⟩
    · split at h
      · split at h
        · cases h
        · split at h
          · cases h
          · have hreset (u : OutputState ι) (hu : u.batchCapacity = 0) :
                batchReset env.calloc u = { u with
                  batchItems := [], batchStarted := false, batchCapacity := 16
                  batchAllocated := env.calloc } := if_pos hu
            rw [hreset _ rfl] at h
            cases hcalloc : env.calloc with
            | false =>
              rw [hcalloc] at h
              cases h
            | true =>
              rw [hcalloc] at h
              cases h
              exact ⟨hinitial.1, hinitial.2⟩
      · cases h

/-- What the posts of a state satisfy, whatever is buffered and answered. -/
def EveryPost (s : OutputState Bytes) (P : Post Bytes → Prop) : Prop :=
  ∀ (items : List Bytes) (env : PostEnv),
    ∀ p ∈ postsOf (httpPostBatch id env { s with batchItems := items }).2.1, P p

theorem everyPost_iff {s : OutputState Bytes} {P : Attempts → Prop} :
    EveryPost s (fun p => P p.attempts) ↔
      ∀ outcome, P (attemptLoop s.retryBackoffSeconds outcome s.maxPosts 0) := by
  constructor
  · intro h outcome
    refine h [[]] ⟨true, true, outcome⟩
      (posted id ⟨true, true, outcome⟩ { s with batchItems := [[]] }) ?_
    rw [httpPostBatch_spec id ⟨rfl, rfl⟩ (List.cons_ne_nil _ _)]
    exact List.mem_singleton_self _
  · intro h items env p hp
    by_cases hne : items = []
    · rw [httpPostBatch_nil env hne] at hp
      cases hp
    · rcases httpPostBatch_cases id env (s := { s with batchItems := items }) hne with he | he
      · rw [he] at hp
        cases hp
      · rw [he] at hp
        rw [List.mem_singleton.mp hp]
        exact h env.outcome

/-- **When the waits are as meant.** For every configuration that is loaded:
exactly when there are at most 32 retries and the last shift leaves something. -/
theorem waits_capped_iff {posixlyCorrect : Bool} {argv : List Bytes} {cfg₀ cfg : ConfigMemory}
    (hargs : parseArgs posixlyCorrect argv .initDefaultConfig = .ok cfg₀) {files : Files}
    {path : Bytes} (hload : loadConfigFile files path cfg₀ = (0, none, cfg)) {init : InitEnv}
    {g s : OutputState Bytes} (hinit : outputInit Bytes init (some cfg.view) g = (0, none, s)) :
    EveryPost s (fun p => CappedWaits (baseOf cfg.outputRetryBackoffSeconds) p.attempts.sleeps) ↔
      cfg.outputRetryMaxAttempts.toInt ≤ 32 ∧
        ¬2 ^ (33 - cfg.outputRetryMaxAttempts.toInt.toNat) ∣
          baseOf cfg.outputRetryBackoffSeconds := by
  have hrange : InRange cfg := by
    have := configuration_in_range hargs files path
    rwa [hload] at this
  obtain ⟨hr, -⟩ := hrange.retryMaxAttempts
  obtain ⟨hretries, hbackoff⟩ := outputInit_retries
    (show 0 ≤ cfg.view.outputRetryMaxAttempts.toInt from hr) hrange.retryBackoff.1 hinit
  have hposts : s.maxPosts = cfg.outputRetryMaxAttempts.toInt.toNat + 1 := by
    rw [OutputState.maxPosts, hretries]
    exact Int.toNat_add_nat hr 1
  refine (everyPost_iff (P := fun a => CappedWaits _ a.sleeps)).trans ?_
  rw [hposts, hbackoff]
  exact (cappedWaits_iff hrange.retryBackoff _).trans (and_congr_left' (by omega))

/-- A configuration for `http_post` with the two retry settings. -/
def retryText (maxAttempts backoffSeconds : Bytes) : Bytes :=
  ascii "output:\n  type: http_post\n  url: http://h\n  retry_max_attempts: " ++ maxAttempts ++
    ascii "\n  retry_backoff_seconds: " ++ backoffSeconds ++ ascii "\n"

def retryConfig (maxAttempts backoffSeconds : Int32) : ConfigMemory :=
  { ConfigMemory.initDefaultConfig with
    outputType := Buffer.ofText 16 (ascii "http_post")
    outputUrl := Buffer.ofText 256 (ascii "http://h")
    outputRetryMaxAttempts := maxAttempts
    outputRetryBackoffSeconds := backoffSeconds }

theorem waits_capped_example :
    EveryPost (outputInit Bytes ⟨true, none, none, true, true⟩ (some (retryConfig 5 2).view)
      (.zero Bytes)).2.2 (fun p => CappedWaits (baseOf 2) p.attempts.sleeps) :=
  (@waits_capped_iff false [ascii "syswatch"] _ (retryConfig 5 2) rfl
    ⟨retryText (ascii "5") (ascii "2"), fun _ => none⟩ (ascii "-") (by decide +kernel)
    ⟨true, none, none, true, true⟩ (.zero Bytes) _ rfl).mpr (by decide +kernel)

/-- Thirty-two retries, two seconds: behind the last attempt but one nothing is
left of the product, and `sleep(0)` is called. -/
theorem last_wait_zero :
    ¬∀ (files : Files) (path : Bytes) (cfg : ConfigMemory) (s : OutputState Bytes),
      loadConfigFile files path .initDefaultConfig = (0, none, cfg) →
      outputInit Bytes ⟨true, none, none, true, true⟩ (some cfg.view) (.zero Bytes) = (0, none, s) →
        EveryPost s fun p =>
          CappedWaits (baseOf cfg.outputRetryBackoffSeconds) p.attempts.sleeps := by
  intro h
  have hall := h ⟨retryText (ascii "32") (ascii "2"), fun _ => none⟩ (ascii "-") (retryConfig 32 2) _
    (by decide +kernel) rfl
  obtain ⟨waits, hsleeps, -, -, hone⟩ :=
    (everyPost_iff (P := fun a => CappedWaits _ a.sleeps)).mp hall fun _ => .transportError
  have hmem : some 0 ∈ waits.map some := hsleeps ▸ (by decide +kernel)
  obtain ⟨w, hw, h0⟩ := List.mem_map.mp hmem
  cases h0
  exact absurd (hone _ hw) (by decide)

end Syswatch.Backoff
