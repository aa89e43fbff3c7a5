import Mathlib.Data.List.ReduceOption
import Mathlib.Tactic

/-! # Sampling a source that may fail

A sensor keeps the last snapshot that could be taken. Each successful read is
compared with it and then replaces it; a failed read leaves it. Each result is
the comparison with the latest earlier success (`Sensor.Knows.sample`), and a
quantity that a comparison measures as a difference telescopes over the run
(`gains_sum`). -/

namespace Syswatch.Lib.Sampling

variable {S T : Type*}

/-- The last snapshot, and whether one was taken. -/
structure Sensor (S : Type*) where
  prev : S
  ready : Bool

/-- The first read only stores. -/
def Sensor.baseline (s : Sensor S) : Option S → Sensor S
  | some x => ⟨x, true⟩
  | none => s

/-- A later read compares with the stored snapshot, then replaces it. -/
def Sensor.sample (compute : S → S → Option T) (s : Sensor S) : Option S → Option T × Sensor S
  | some curr => (if s.ready then compute s.prev curr else none, ⟨curr, true⟩)
  | none => (none, s)

/-- A result compares an earlier snapshot with the one just read. -/
theorem Sensor.sample_eq_some {compute : S → S → Option T} {s : Sensor S} {read : Option S} {x : T}
    (h : (s.sample compute read).1 = some x) : ∃ prev curr, read = some curr ∧ compute prev curr = some x := by
  cases read with
  | none => cases h
  | some curr =>
    simp only [Sensor.sample] at h
    split at h
    · exact ⟨s.prev, curr, rfl, h⟩
    · cases h

/-- The latest successful read. -/
def latest (past : List (Option S)) : Option S := past.reduceOption.getLast?

@[simp] theorem latest_nil : latest ([] : List (Option S)) = none := rfl

@[simp] theorem latest_concat_some (past : List (Option S)) (x : S) :
    latest (past ++ [some x]) = some x := by
  simp [latest, List.reduceOption_append, List.reduceOption_singleton]

@[simp] theorem latest_concat_none (past : List (Option S)) :
    latest (past ++ [none]) = latest past := by
  simp [latest, List.reduceOption_append]

theorem latest_isSome {past : List (Option S)} : (latest past).isSome = past.any Option.isSome := by
  induction past using List.reverseRecOn with
  | nil => rfl
  | append_singleton past r ih => cases r <;> simp [ih]

/-- The latest success is at some position, and everything after it failed. -/
theorem latest_eq_some {past : List (Option S)} {x : S} (h : latest past = some x) :
    ∃ j < past.length, past[j]? = some (some x) ∧
      ∀ i, j < i → i < past.length → past[i]? = some none := by
  induction past using List.reverseRecOn with
  | nil => cases h
  | append_singleton past r ih =>
    cases r with
    | some y =>
      rw [latest_concat_some, Option.some.injEq] at h
      subst h
      refine ⟨past.length, by simp, List.getElem?_concat_length, fun i hi hlt => ?_⟩
      rw [List.length_append, List.length_singleton] at hlt
      omega
    | none =>
      rw [latest_concat_none] at h
      obtain ⟨j, hj, hx, hnone⟩ := ih h
      refine ⟨j, by simp; omega, by rw [List.getElem?_append_left hj]; exact hx, fun i hi hlt => ?_⟩
      by_cases hlen : i < past.length
      · rw [List.getElem?_append_left hlen]
        exact hnone i hi hlen
      · rw [List.length_append, List.length_singleton] at hlt
        rw [show i = past.length by omega, List.getElem?_concat_length]

/-- The comparison the latest success and a new read call for. -/
def comparison (compute : S → S → Option T) (past : List (Option S)) (read : Option S) : Option T :=
  read.bind fun curr => (latest past).bind fun prev => compute prev curr

/-- One comparison for each read, given what was read before. -/
def comparisons (compute : S → S → Option T) : List (Option S) → List (Option S) → List (Option T)
  | _, [] => []
  | past, r :: rs => comparison compute past r :: comparisons compute (past ++ [r]) rs

theorem comparisons_getElem? (compute : S → S → Option T) (past rs : List (Option S)) (k : Nat) :
    (comparisons compute past rs)[k]? = rs[k]?.map (comparison compute (past ++ rs.take k)) := by
  induction rs generalizing past k with
  | nil => simp [comparisons]
  | cons r rs ih =>
    cases k with
    | zero => simp [comparisons]
    | succ k => simp [comparisons, ih]

/-- The sensor stores the latest success of the past. -/
structure Sensor.Knows (s : Sensor S) (past : List (Option S)) : Prop where
  ready : s.ready = (latest past).isSome
  prev : ∀ x ∈ latest past, s.prev = x

theorem latest_knows {s : Sensor S} {past : List (Option S)} :
    s.Knows (past ++ [none]) ↔ s.Knows past := by
  constructor <;> rintro ⟨hr, hp⟩ <;> exact ⟨by simpa using hr, by simpa using hp⟩

theorem Sensor.knows_nil (x : S) : (Sensor.mk x false).Knows [] := ⟨rfl, by simp⟩

theorem Sensor.Knows.baseline {s : Sensor S} {past : List (Option S)} (h : s.Knows past)
    (read : Option S) : (s.baseline read).Knows (past ++ [read]) := by
  cases read with
  | none => exact latest_knows.mpr h
  | some x => exact ⟨by simp [Sensor.baseline], by simp [Sensor.baseline]⟩

theorem Sensor.Knows.sample {s : Sensor S} {past : List (Option S)} (h : s.Knows past)
    (compute : S → S → Option T) (read : Option S) :
    (s.sample compute read).1 = comparison compute past read ∧
      (s.sample compute read).2.Knows (past ++ [read]) := by
  cases read with
  | none =>
    exact ⟨rfl, latest_knows.mpr h⟩
  | some curr =>
    refine ⟨?_, ⟨by simp [Sensor.sample], by simp [Sensor.sample]⟩⟩
    have hr := h.ready
    simp only [Sensor.sample, comparison, Option.bind_some]
    cases hl : latest past with
    | none => simp [hr, hl]
    | some x => simp [hr, hl, h.prev x hl]

/-! ## Telescoping -/

/-- The increase of `f` from the first to the last element. -/
def span (f : S → ℚ) (l : List S) : ℚ :=
  match l.head?, l.getLast? with
  | some a, some b => f b - f a
  | _, _ => 0

theorem span_cons_cons (f : S → ℚ) (a b : S) (l : List S) :
    span f (a :: b :: l) = (f b - f a) + span f (b :: l) := by
  simp only [span, List.head?_cons, List.getLast?_cons_cons]
  cases h : (b :: l).getLast? with
  | none => simp at h
  | some c => simp

/-- **Telescoping.** When each comparison of successive successes exists and
measures the increase of `f`, the measured increases of a run add up to the
increase of `f` between the first and the last success. -/
theorem gains_sum (compute : S → S → Option T) (f : S → ℚ) (gain : T → ℚ)
    (rs past : List (Option S))
    (hchain : List.IsChain (fun a b => ∃ t, compute a b = some t ∧ gain t = f b - f a)
      ((latest past).toList ++ rs.reduceOption)) :
    ((comparisons compute past rs).map fun t => (t.map gain).getD 0).sum =
      span f ((latest past).toList ++ rs.reduceOption) := by
  induction rs generalizing past with
  | nil => cases latest past <;> simp [comparisons, span]
  | cons r rs ih =>
    cases r with
    | none =>
      have hsame : latest (past ++ [none]) = latest past := latest_concat_none past
      have := ih (past ++ [none]) (by rw [hsame]; simpa using hchain)
      simpa [comparisons, comparison, hsame] using this
    | some c =>
      have hnew := ih (past ++ [some c])
      simp only [latest_concat_some, Option.toList_some, List.singleton_append] at hnew
      simp only [comparisons, comparison, Option.bind_some, List.map_cons, List.sum_cons,
        List.reduceOption_cons_of_some] at hchain ⊢
      cases hl : latest past with
      | none =>
        simp only [hl, Option.toList_none, List.nil_append] at hchain ⊢
        rw [hnew hchain]
        simp
      | some p =>
        simp only [hl, Option.toList_some, List.singleton_append] at hchain ⊢
        obtain ⟨⟨t, ht, hg⟩, hrest⟩ := List.isChain_cons_cons.mp hchain
        rw [hnew hrest, span_cons_cons]
        simp [ht, hg]

/-! ## A whole history of reads -/

/-- A read is compared with the success it directly follows. -/
theorem latest_take {reads : List (Option S)} {j : Nat} {x : S} (hj : reads[j]? = some (some x)) :
    ∀ {k : Nat}, j < k → k ≤ reads.length → (∀ i, j < i → i < k → reads[i]? = some none) →
      latest (reads.take k) = some x
  | k + 1, hk, hlen, hnone => by
    have hlt : k < reads.length := hlen
    rw [List.take_add_one]
    rcases Nat.lt_or_eq_of_le (Nat.le_of_lt_succ hk) with hjk | rfl
    · rw [hnone k hjk (Nat.lt_succ_self k), Option.toList_some, latest_concat_none]
      exact latest_take hj hjk hlt.le fun i hi hik => hnone i hi (Nat.lt_succ_of_lt hik)
    · rw [hj, Option.toList_some, latest_concat_some]

/-- The comparisons of a history whose first read is only stored. -/
def successive (compute : S → S → Option T) (reads : List (Option S)) : List (Option T) :=
  comparisons compute (reads.take 1) (reads.drop 1)

theorem successive_getElem? (compute : S → S → Option T) (reads : List (Option S)) (k : Nat) :
    (successive compute reads)[k]? = reads[k + 1]?.map (comparison compute (reads.take (k + 1))) := by
  rw [successive, comparisons_getElem?, List.getElem?_drop, Nat.add_comm 1 k]
  cases reads <;> simp

/-- The comparison of two successes with only failures between them. -/
theorem successive_eq (compute : S → S → Option T) {reads : List (Option S)} {j k : Nat} {x y : S}
    (hjk : j < k) (hj : reads[j]? = some (some x)) (hk : reads[k]? = some (some y))
    (hnone : ∀ i, j < i → i < k → reads[i]? = some none) :
    (successive compute reads)[k - 1]? = some (compute x y) := by
  obtain ⟨m, rfl⟩ : ∃ m, k = m + 1 := ⟨k - 1, by omega⟩
  have hlen : m + 1 < reads.length := (List.getElem?_eq_some_iff.mp hk).1
  rw [Nat.add_sub_cancel, successive_getElem?, hk, Option.map_some, comparison, Option.bind_some,
    latest_take hj hjk hlen.le hnone, Option.bind_some]

/-- **Telescoping over a history.** -/
theorem successive_sum (compute : S → S → Option T) (f : S → ℚ) (gain : T → ℚ)
    (reads : List (Option S))
    (hchain : reads.reduceOption.IsChain fun a b => ∃ t, compute a b = some t ∧ gain t = f b - f a) :
    ((successive compute reads).map fun t => (t.map gain).getD 0).sum = span f reads.reduceOption := by
  cases reads with
  | nil => simp [successive, comparisons, span, List.reduceOption]
  | cons r rs =>
    have hsplit : (latest [r]).toList ++ rs.reduceOption = (r :: rs).reduceOption := by
      cases r <;> simp [latest, List.reduceOption]
    have := gains_sum compute f gain rs [r] (by rwa [hsplit])
    rwa [hsplit] at this

end Syswatch.Lib.Sampling
