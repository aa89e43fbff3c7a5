import Syswatch.EventHistory

/-! # The history of one type

`ingest` files an event without a type under `unknown`. `history` compares it as
if its type were empty, and takes the empty type for no type at all. -/

namespace Syswatch.EventQuery
open Lib.BoundedFifo EventHistory

variable {V : Type} (objects : PyObjects V)

/-- The events of the history that `ingest` filed under that type. -/
def filed (s : EventStore V) (t : PyStr) : List (EventDict V) :=
  s.history.filter fun e => eventType objects e = t

/-- `max(1, min(limit, 2000))`. -/
def clamped (limit : Int) : Nat := (max 1 (min limit 2000)).toNat

/-- The query answers with the last events filed under the type; the latest of
them, if it is still there, comes last. -/
def Classified (s : EventStore V) (t : PyStr) (limit : Int) : Prop :=
  s.historyOf objects (some t) limit =
      (filed objects s t).rtake (min (clamped limit) (filed objects s t).length) ∧
    ∀ e ∈ s.latest.eventsByType.lookup t, e ∈ s.history →
      (s.historyOf objects (some t) limit).getLast? = some e

/-- Nothing of what the answer should hold is overlooked: for the empty type the
last events of all have it, for `unknown` the last events filed under it say so
themselves. -/
def Distinct (s : EventStore V) (t : PyStr) (limit : Int) : Prop :=
  (t = [] → ∀ e ∈ s.history.rtake (clamped limit), eventType objects e = []) ∧
    (t = py "unknown" → ∀ e ∈ (filed objects s t).rtake (clamped limit),
      (e.lookup (py "event_type")).isSome)

variable {objects}

/-- A filter leaves the last elements alone exactly when it keeps each of them. -/
theorem rtake_filter_eq_iff {α : Type} (p : α → Bool) (l : List α) (n : Nat) :
    (l.filter p).rtake n = l.rtake n ↔ ∀ x ∈ l.rtake n, p x = true := by
  constructor
  · intro h x hx
    rw [← h] at hx
    exact (List.mem_filter.mp ((List.drop_sublist _ _).mem hx)).2
  · intro h
    have hsplit : l.filter p = (l.take (l.length - n)).filter p ++ l.rtake n := by
      conv_lhs => rw [← List.take_append_drop (l.length - n) l]
      rw [List.filter_append]
      exact congrArg _ (List.filter_eq_self.mpr h)
    have hlen : (l.rtake n).length = l.length - (l.length - n) := List.length_drop
    by_cases hn : n ≤ l.length
    · rw [hsplit, List.rtake, List.drop_append_of_le_length (by rw [List.length_append]; omega),
        List.length_append, show (l.rtake n).length = n by omega, Nat.add_sub_cancel,
        List.drop_length, List.nil_append]
    · rw [hsplit, show l.length - n = 0 by omega, List.take_zero, List.filter_nil, List.nil_append,
        rtake_rtake, min_self]

/-- The two ways to read the type of an event differ for an event without one. -/
theorem typeOr_nil_iff {e : EventDict V} {t : PyStr} (ht : t ≠ []) :
    typeOr objects [] e = t ↔
      eventType objects e = t ∧ (t = py "unknown" → (e.lookup (py "event_type")).isSome) := by
  unfold eventType typeOr
  cases e.lookup (py "event_type") with
  | some v => simp
  | none =>
    refine iff_of_false (Ne.symm ht) ?_
    rintro ⟨rfl, hsome⟩
    exact absurd (hsome rfl) (by simp)

/-- What is asked of the answer, without the bound on its length. -/
theorem answer_iff (s : EventStore V) (t : PyStr) (limit : Int) :
    s.historyOf objects (some t) limit =
        (filed objects s t).rtake (min (clamped limit) (filed objects s t).length) ↔
      Distinct objects s t limit := by
  have hclamp : (0 : Int) ≤ max 1 (min limit 2000) := by omega
  rw [rtake_min_length, EventStore.historyOf, lastItems_eq_rtake _ hclamp]
  change (if t = [] then _ else _ : List (EventDict V)).rtake (clamped limit) = _ ↔ _
  by_cases ht : t = []
  · subst ht
    rw [if_pos rfl, eq_comm, filed, rtake_filter_eq_iff]
    simp [Distinct, py]
  · have hsub : (s.history.filter fun e => typeOr objects [] e = t) =
        (filed objects s t).filter fun e =>
          decide (t = py "unknown" → (e.lookup (py "event_type")).isSome) := by
      rw [filed, List.filter_filter]
      refine List.filter_congr fun e _ => ?_
      rw [← Bool.decide_and, decide_eq_decide, typeOr_nil_iff ht, and_comm]
    rw [if_neg ht, hsub, rtake_filter_eq_iff]
    simp only [Distinct, ht, false_implies, true_and, decide_eq_true_eq]
    exact ⟨fun h hu e he => h e he hu, fun h e he hu => h hu e he⟩

/-! ## The latest event -/

/-- A store that may keep nothing keeps nothing. -/
theorem ingestAll_zero (now : ℚ) (calls : Calls V) :
    (ingestAll objects (.new 0 now) calls).history = [] := by
  have hrecord : ∀ (events : List (EventDict V)) (t : ℚ) (s : EventStore V),
      s.maxEvents = 0 ∧ s.history = [] →
      let s' := events.foldl (fun s e => s.record objects (stamp objects t e)) s
      s'.maxEvents = 0 ∧ s'.history = [] := by
    intro events t
    induction events with
    | nil => exact fun s hs => hs
    | cons e events ih =>
      intro s hs
      refine ih _ ⟨hs.1, ?_⟩
      simp only [EventStore.record]
      rw [hs.1, hs.2]
      rfl
  have hcalls : ∀ (calls : Calls V) (s : EventStore V), s.maxEvents = 0 ∧ s.history = [] →
      (ingestAll objects s calls).maxEvents = 0 ∧ (ingestAll objects s calls).history = [] := by
    intro calls
    induction calls with
    | nil => exact fun s hs => hs
    | cons call calls ih => exact fun s hs => ih _ (hrecord call.2 call.1 _ hs)
  exact (hcalls calls (.new 0 now) ⟨rfl, rfl⟩).2

/-- The latest event of a type, if it is in the history, is the last one filed there. -/
theorem latest_filed {m : Nat} (start : ℚ) (calls : Calls V) {t : PyStr} {e : EventDict V}
    (hlatest : e ∈ (ingestAll objects (.new m start) calls).latest.eventsByType.lookup t)
    (he : e ∈ (ingestAll objects (.new m start) calls).history) :
    (filed objects (ingestAll objects (.new m start) calls) t).getLast? = some e := by
  rcases Nat.eq_zero_or_pos m with rfl | hm
  · rw [ingestAll_zero] at he
    cases he
  have h : Holds objects m (arrived objects calls) calls.length _ := holds_ingestAll hm start calls
  have hlast : ((arrived objects calls).filter fun e => eventType objects e = t).getLast? = some e :=
    (h.latest t).symm.trans hlatest
  have htype : eventType objects e = t := by
    simpa using (List.mem_filter.mp (List.mem_of_getLast? hlast)).2
  have hmem : e ∈ filed objects (ingestAll objects (.new m start) calls) t :=
    List.mem_filter.mpr ⟨he, by simpa using htype⟩
  obtain ⟨front, hfront⟩ : (ingestAll objects (.new m start) calls).history <:+
      arrived objects calls := h.history ▸ List.drop_suffix _ _
  rw [← hfront, List.filter_append, List.getLast?_append] at hlast
  rw [filed] at hmem ⊢
  cases hx : ((ingestAll objects (.new m start) calls).history.filter fun e =>
      decide (eventType objects e = t)).getLast? with
  | none =>
    rw [List.getLast?_eq_none_iff.mp hx] at hmem
    cases hmem
  | some x => rwa [hx, Option.some_or] at hlast

theorem getLast?_rtake {α : Type} (l : List α) {n : Nat} (hn : 0 < n) :
    (l.rtake n).getLast? = l.getLast? := by
  rw [List.rtake, List.getLast?_drop]
  split
  · have : l.length = 0 := by omega
    rw [List.length_eq_zero_iff.mp this]
    rfl
  · rfl

/-- **When the query and `ingest` agree.** Exactly unless the type is empty and
one of the last events has another, or the type is `unknown` and one of the last
events filed under it has none. -/
theorem classified_iff (objects : PyObjects V) (m : Nat) (start : ℚ) (calls : Calls V) (t : PyStr)
    (limit : Int) : Classified objects (ingestAll objects (.new m start) calls) t limit ↔
      Distinct objects (ingestAll objects (.new m start) calls) t limit := by
  rw [← answer_iff]
  refine ⟨And.left, fun h => ⟨h, fun e hlatest he => ?_⟩⟩
  have hpos : 0 < clamped limit := by
    unfold clamped
    omega
  rw [h, rtake_min_length, getLast?_rtake _ hpos]
  exact latest_filed start calls hlatest he

/-- An event without a type is seen as `unknown`, and is not found under it. -/
theorem unknown_overlooked :
    py "unknown" ∈ ((ingestAll strings (.new 5000 0) [(1, [∅])]).health 2 2).seenEventTypes ∧
      ¬Classified strings (ingestAll strings (.new 5000 0) [(1, [∅])]) (py "unknown") 200 := by
  refine ⟨List.mem_mergeSort.mpr (by decide), fun h => ?_⟩
  have hanswer : (ingestAll strings (.new 5000 0) [(1, [∅])]).historyOf strings
      (some (py "unknown")) 200 = [] := rfl
  have hlatest := h.2 (stamp strings 1 ∅) rfl (List.mem_singleton.mpr rfl)
  rw [hanswer] at hlatest
  cases hlatest

end Syswatch.EventQuery
