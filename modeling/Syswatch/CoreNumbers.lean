import Syswatch.StatLocals

/-! # Which core a usage belongs to

A core that is offline has no line in `/proc/stat`. The reader drops the number
in front of the counters, and two samples are put together by position. -/

namespace Syswatch.CoreNumbers
open Lib.CText ProcStat StatLocals

/-! ## Two increasing lists side by side -/

section Increasing

variable {α : Type} {a b : α} {as bs : List α}

/-- The same at every position that both lists have. -/
def Aligned (as bs : List α) : Prop := ∀ (i : Nat) (a b : α), as[i]? = some a → bs[i]? = some b → a = b

theorem aligned_cons : Aligned (a :: as) (b :: bs) ↔ a = b ∧ Aligned as bs := by
  constructor
  · intro h
    exact ⟨h 0 a b rfl rfl, fun i x y hx hy => h (i + 1) x y hx hy⟩
  · rintro ⟨rfl, h⟩ i x y hx hy
    cases i with
    | zero => exact (Option.some.inj hx).symm.trans (Option.some.inj hy)
    | succ i => exact h i x y hx hy

variable [LinearOrder α]

/-- What only the first list has lies beyond all of the second. -/
def Beyond (as bs : List α) : Prop := ∀ a ∈ as, a ∉ bs → ∀ b ∈ bs, b < a

theorem beyond_cons (has : ∀ x ∈ as, a < x) : Beyond (a :: as) (a :: bs) ↔ Beyond as bs := by
  constructor
  · intro h x hx hxbs y hy
    have hne : x ≠ a := (has x hx).ne'
    exact h x (List.mem_cons_of_mem _ hx) (by simp [hne, hxbs]) y (List.mem_cons_of_mem _ hy)
  · intro h x hx hxbs y hy
    rw [List.mem_cons, not_or] at hxbs
    have hxas := (List.mem_cons.mp hx).resolve_left hxbs.1
    rcases List.mem_cons.mp hy with rfl | hy
    · exact has x hxas
    · exact h x hxas hxbs.2 y hy

/-- What is missing at the front moves all that follows. -/
theorem not_beyond_of_lt (hbs : ∀ y ∈ bs, b < y) (h : a < b) : ¬ Beyond (a :: as) (b :: bs) := by
  intro hbeyond
  have hout : a ∉ b :: bs := by
    rw [List.mem_cons, not_or]
    exact ⟨h.ne, fun hmem => lt_asymm h (hbs a hmem)⟩
  exact lt_asymm h (hbeyond a (by simp) hout b (by simp))

theorem aligned_iff_beyond (has : as.Pairwise (· < ·)) (hbs : bs.Pairwise (· < ·)) :
    Aligned as bs ↔ Beyond as bs ∧ Beyond bs as := by
  induction as generalizing bs with
  | nil => exact iff_of_true (by simp [Aligned]) ⟨by simp [Beyond], by simp [Beyond]⟩
  | cons a as ih =>
    cases bs with
    | nil => exact iff_of_true (by simp [Aligned]) ⟨by simp [Beyond], by simp [Beyond]⟩
    | cons b bs =>
      obtain ⟨hahead, hatail⟩ := List.pairwise_cons.mp has
      obtain ⟨hbhead, hbtail⟩ := List.pairwise_cons.mp hbs
      rw [aligned_cons]
      rcases lt_trichotomy a b with hlt | rfl | hgt
      · exact iff_of_false (fun h => hlt.ne h.1) fun h => not_beyond_of_lt hbhead hlt h.1
      · rw [beyond_cons hahead, beyond_cons hbhead, ← ih hatail hbtail, and_iff_right rfl]
      · exact iff_of_false (fun h => hgt.ne' h.1) fun h => not_beyond_of_lt hahead hgt h.2

end Increasing

/-! ## The lines of the cores -/

/-- The number behind `cpu`. -/
def coreNumber (line : Bytes) : Nat := digitsValue (((cstr line).drop 3).takeWhile isDigit)

/-- The lines that are recorded, with the counters taken from each. -/
def coreRecords (parsed : Nat → CpuTimes) (text : Bytes) : List (Bytes × CpuTimes) :=
  ((beforeIntr (fgetsAll 512 [] text)).zipIdx.filterMap fun p =>
    (coreRead p.1).map fun read => (p.1, store (parsed p.2) read)).take MAX_CORES

/-- The numbers on the lines that are recorded. -/
def coreNumbers (text : Bytes) : List Nat :=
  (((beforeIntr (fgetsAll 512 [] text)).filter fun line => (coreRead line).isSome).take MAX_CORES).map
    coreNumber

variable {parsed parsed' : Nat → CpuTimes} {text prevText currText : Bytes}

theorem coreRecords_times (parsed : Nat → CpuTimes) (text : Bytes) :
    ((reads coreRead 0 (beforeIntr (fgetsAll 512 [] text))).take MAX_CORES).map (stored parsed) =
      (coreRecords parsed text).map Prod.snd := by
  rw [coreRecords, reads, List.map_take, List.map_take, List.map_filterMap, List.map_filterMap]
  congr 2
  funext p
  cases coreRead p.1 <;> rfl

theorem coreRecords_numbers (parsed : Nat → CpuTimes) (text : Bytes) :
    (coreRecords parsed text).map (fun r => coreNumber r.1) = coreNumbers text := by
  have hlines (turn : Nat) (lines : List Bytes) :
      ((lines.zipIdx turn).filterMap fun p =>
          (coreRead p.1).map fun read => (p.1, store (parsed p.2) read)).map Prod.fst =
        lines.filter fun line => (coreRead line).isSome := by
    induction lines generalizing turn with
    | nil => rfl
    | cons line rest ih =>
      rw [List.zipIdx_cons, List.filterMap_cons, List.filter_cons, ← ih (turn + 1)]
      cases coreRead line <;> rfl
  rw [coreRecords, coreNumbers, ← hlines 0, ← List.map_take, List.map_map]
  rfl

theorem snapshot_cores (parsed : Nat → CpuTimes) (text : Bytes) :
    ∃ snapshot, cpuReadSnapshot parsed (some text) = some snapshot ∧
      snapshot.cores = (coreRecords parsed text).map Prod.snd := by
  obtain ⟨snapshot, hread, -, hcores⟩ := cpuReadSnapshot_eq parsed text
  exact ⟨snapshot, hread, hcores.trans (coreRecords_times parsed text)⟩

/-- A core is compared with itself: the usage at each position is derived from
two lines with one number. -/
def OwnCore (parsed parsed' : Nat → CpuTimes) (prevText currText : Bytes) : Prop :=
  ∃ prev curr stats, cpuReadSnapshot parsed (some prevText) = some prev ∧
    cpuReadSnapshot parsed' (some currText) = some curr ∧
    cpuComputeStats prev curr = some stats ∧
    ∀ i < stats.coreCount, ∃ p c, (coreRecords parsed prevText)[i]? = some p ∧
      (coreRecords parsed' currText)[i]? = some c ∧ prev.cores[i]? = some p.2 ∧
      curr.cores[i]? = some c.2 ∧ stats.coreUsagePct[i]? = some (cpuPctFromDelta p.2 c.2).1 ∧
      coreNumber p.1 = coreNumber c.1

theorem OwnCore.aligned (h : OwnCore parsed parsed' prevText currText) :
    Aligned (coreNumbers prevText) (coreNumbers currText) := by
  obtain ⟨prev, curr, stats, hprev, hcurr, hstats, hown⟩ := h
  obtain ⟨_, hprev', hprevCores⟩ := snapshot_cores parsed prevText
  obtain ⟨_, hcurr', hcurrCores⟩ := snapshot_cores parsed' currText
  cases hprev.symm.trans hprev'
  cases hcurr.symm.trans hcurr'
  intro i a b ha hb
  rw [← coreRecords_numbers parsed, List.getElem?_map, Option.map_eq_some_iff] at ha
  rw [← coreRecords_numbers parsed', List.getElem?_map, Option.map_eq_some_iff] at hb
  obtain ⟨p, hp, rfl⟩ := ha
  obtain ⟨c, hc, rfl⟩ := hb
  have hcount : i < stats.coreCount := by
    cases hstats
    rw [lt_min_iff, hprevCores, hcurrCores, List.length_map, List.length_map]
    exact ⟨(List.getElem?_eq_some_iff.mp hp).1, (List.getElem?_eq_some_iff.mp hc).1⟩
  obtain ⟨p', c', hp', hc', -, -, -, hnumber⟩ := hown i hcount
  rw [hp, Option.some.injEq] at hp'
  rw [hc, Option.some.injEq] at hc'
  rw [hp', hc', hnumber]

theorem ownCore_of_aligned (h : Aligned (coreNumbers prevText) (coreNumbers currText)) :
    OwnCore parsed parsed' prevText currText := by
  obtain ⟨prev, hprev, hprevCores⟩ := snapshot_cores parsed prevText
  obtain ⟨curr, hcurr, hcurrCores⟩ := snapshot_cores parsed' currText
  refine ⟨prev, curr, _, hprev, hcurr, rfl, ?_⟩
  intro i hi
  rw [lt_min_iff, hprevCores, hcurrCores, List.length_map, List.length_map] at hi
  have hp := List.getElem?_eq_getElem hi.1
  have hc := List.getElem?_eq_getElem hi.2
  have hprevCore : prev.cores[i]? = some ((coreRecords parsed prevText)[i].2) := by
    rw [hprevCores, List.getElem?_map, hp, Option.map_some]
  have hcurrCore : curr.cores[i]? = some ((coreRecords parsed' currText)[i].2) := by
    rw [hcurrCores, List.getElem?_map, hc, Option.map_some]
  refine ⟨_, _, hp, hc, hprevCore, hcurrCore, ?_, ?_⟩
  · rw [List.getElem?_zipWith, hprevCore, hcurrCore]
  · refine h i _ _ ?_ ?_
    · rw [← coreRecords_numbers parsed, List.getElem?_map, hp, Option.map_some]
    · rw [← coreRecords_numbers parsed', List.getElem?_map, hc, Option.map_some]

/-- **The usages belong to the cores they are listed for** exactly when cores
come and go at the end of the list: one that is in only one of the samples has a
number above all those of the other. -/
theorem core_usage_own_iff (parsed parsed' : Nat → CpuTimes)
    (hprev : (coreNumbers prevText).Pairwise (· < ·)) (hcurr : (coreNumbers currText).Pairwise (· < ·)) :
    OwnCore parsed parsed' prevText currText ↔
      Beyond (coreNumbers prevText) (coreNumbers currText) ∧
        Beyond (coreNumbers currText) (coreNumbers prevText) := by
  rw [← aligned_iff_beyond hprev hcurr]
  exact ⟨OwnCore.aligned, ownCore_of_aligned⟩

def threeCores : Bytes := ascii
  "cpu  3 0 0 30 0 0 0 0\ncpu0 1 0 0 10 0 0 0 0\ncpu1 1 0 0 10 0 0 0 0\ncpu2 1 0 0 10 0 0 0 0\nintr 0\n"

/-- The last core is offline. -/
def firstTwo : Bytes := ascii
  "cpu  4 0 0 40 0 0 0 0\ncpu0 2 0 0 20 0 0 0 0\ncpu1 2 0 0 20 0 0 0 0\nintr 0\n"

/-- The core in the middle is offline. -/
def withoutMiddle : Bytes := ascii
  "cpu  4 0 0 40 0 0 0 0\ncpu0 2 0 0 20 0 0 0 0\ncpu2 2 0 0 20 0 0 0 0\nintr 0\n"

theorem threeCores_numbers : coreNumbers threeCores = [0, 1, 2] := by decide +kernel

theorem core_usage_own_iff_example : OwnCore (fun _ => zeroTimes) (fun _ => zeroTimes) threeCores firstTwo := by
  have hfirst : coreNumbers firstTwo = [0, 1] := by decide +kernel
  refine (core_usage_own_iff _ _ ?_ ?_).mpr ?_
  · rw [threeCores_numbers]
    decide
  · rw [hfirst]
    decide
  · rw [threeCores_numbers, hfirst]
    simp [Beyond]

/-- `cpu2` is compared with what `cpu1` was. -/
theorem middle_core_offline :
    (coreNumbers threeCores).Pairwise (· < ·) ∧ (coreNumbers withoutMiddle).Pairwise (· < ·) ∧
      ¬ OwnCore (fun _ => zeroTimes) (fun _ => zeroTimes) threeCores withoutMiddle := by
  have hwithout : coreNumbers withoutMiddle = [0, 2] := by decide +kernel
  rw [threeCores_numbers, hwithout]
  refine ⟨by decide, by decide, ?_⟩
  intro h
  have haligned := h.aligned
  rw [threeCores_numbers, hwithout] at haligned
  cases haligned 1 1 2 rfl rfl

end Syswatch.CoreNumbers
