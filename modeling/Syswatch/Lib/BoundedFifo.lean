import Mathlib.Data.List.DropRight
import Mathlib.Data.List.Induction
import Mathlib.Data.List.Range
import Mathlib.Logic.Function.Basic
import Mathlib.Tactic

/-! # Bounded FIFO with a drop-oldest policy

Three layers over an arbitrary element type. `window` reads `count` slots of a
memory circularly from `head`; its lemmas say what advancing the head and
writing behind the window do. `push` is the FIFO on plain lists that drops its
oldest element when it is full. `Ledger` numbers the pushed elements in order
and remembers which were taken and which were lost; `Ledger.lost_iff` says
exactly which ones a run loses. -/

namespace Syswatch.Lib.BoundedFifo

variable {α β : Type*}

/-! ## A circular window of a memory -/

/-- The `count` slots read circularly from `head`, in a memory of `cap` slots. -/
def window (slots : Nat → α) (cap head count : Nat) : List α :=
  (List.range count).map fun k => slots ((head + k) % cap)

@[simp] theorem window_length (slots : Nat → α) (cap head count : Nat) :
    (window slots cap head count).length = count := by simp [window]

@[simp] theorem window_zero (slots : Nat → α) (cap head : Nat) :
    window slots cap head 0 = [] := rfl

theorem window_mod (slots : Nat → α) (cap head count : Nat) :
    window slots cap (head % cap) count = window slots cap head count := by
  simp [window, Nat.add_mod]

/-- Reading the first slot and advancing the head is reading the whole. -/
theorem window_succ (slots : Nat → α) (cap head count : Nat) :
    window slots cap head (count + 1) =
      slots (head % cap) :: window slots cap ((head + 1) % cap) count := by
  rw [window_mod]
  simp only [window, List.range_succ_eq_map, List.map_cons, List.map_map, Nat.add_zero]
  congr 1
  apply List.map_congr_left
  intro k _
  simp only [Function.comp_apply, Nat.succ_eq_add_one]
  congr 2
  omega

theorem window_tail (slots : Nat → α) (cap head count : Nat) :
    (window slots cap head count).tail = window slots cap ((head + 1) % cap) (count - 1) := by
  cases count with
  | zero => rfl
  | succ count => rw [window_succ]; rfl

/-- A write outside the window does not change what the window reads. -/
theorem window_update_of_not_mem (slots : Nat → α) (cap head count i : Nat) (x : α)
    (h : ∀ k, k < count → (head + k) % cap ≠ i) :
    window (Function.update slots i x) cap head count = window slots cap head count := by
  apply List.map_congr_left
  intro k hk
  exact Function.update_of_ne (h k (List.mem_range.mp hk)) _ _

/-- Fewer than `cap` steps from `head` never come round to the same slot. -/
theorem slot_ne {cap head k count : Nat} (hk : k < count) (hc : count < cap) :
    (head + k) % cap ≠ (head + count) % cap := by
  intro h
  have hm : count ≡ k [MOD cap] := (Nat.ModEq.add_left_cancel' head h).symm
  have := hm.eq_of_lt_of_lt hc (hk.trans hc)
  omega

/-- Writing the slot behind a window that is not full appends to it. -/
theorem window_write (slots : Nat → α) (cap head count : Nat) (x : α) (hc : count < cap) :
    window (Function.update slots ((head + count) % cap) x) cap head (count + 1) =
      window slots cap head count ++ [x] := by
  have hsame := window_update_of_not_mem slots cap head count ((head + count) % cap) x
    (fun k hk => slot_ne hk hc)
  unfold window at hsame ⊢
  rw [List.range_succ, List.map_append, hsame]
  simp

/-! ## The FIFO on lists -/

/-- Append, dropping the oldest element of a full list first. -/
def push (cap : Nat) (l : List α) (x : α) : List α :=
  (if l.length < cap then l else l.tail) ++ [x]

/-- What `push` drops: nothing, or the oldest element. -/
def evicted (cap : Nat) (l : List α) : List α :=
  if l.length < cap then [] else l.take 1

/-- What `push` keeps of the list. -/
def kept (cap : Nat) (l : List α) : List α := if l.length < cap then l else l.tail

theorem push_eq (cap : Nat) (l : List α) (x : α) : push cap l x = kept cap l ++ [x] := rfl

theorem evicted_append_kept (cap : Nat) (l : List α) : evicted cap l ++ kept cap l = l := by
  unfold evicted kept
  split
  · rfl
  · rw [← List.drop_one, List.take_append_drop]

theorem kept_sublist (cap : Nat) (l : List α) : (kept cap l).Sublist l := by
  unfold kept
  split
  · exact List.Sublist.refl l
  · exact List.tail_sublist l

theorem evicted_length {cap : Nat} (l : List α) (hc : 0 < cap) :
    (evicted cap l).length = if l.length < cap then 0 else 1 := by
  unfold evicted
  split
  · rfl
  · rw [List.length_take]; omega

theorem push_map (f : α → β) (cap : Nat) (l : List α) (x : α) :
    (push cap l x).map f = push cap (l.map f) (f x) := by
  unfold push
  split <;> simp_all

theorem push_of_lt {cap : Nat} {l : List α} (x : α) (h : l.length < cap) :
    push cap l x = l ++ [x] := by simp [push, h]

theorem push_of_full {cap : Nat} {l : List α} (x : α) (h : cap ≤ l.length) :
    push cap l x = l.tail ++ [x] := by simp [push, Nat.not_lt.mpr h]

theorem mem_push {cap : Nat} {l : List α} {x y : α} (h : y ∈ push cap l x) : y ∈ l ∨ y = x := by
  rcases List.mem_append.mp h with h | h
  · exact .inl ((kept_sublist cap l).mem h)
  · exact .inr (List.mem_singleton.mp h)

theorem push_length {cap : Nat} {l : List α} (x : α) (hc : 0 < cap) (h : l.length ≤ cap) :
    (push cap l x).length = min (l.length + 1) cap := by
  unfold push
  split <;> simp <;> omega

/-- Pushing keeps the last elements of everything pushed. -/
theorem push_rtake {cap : Nat} (hc : 0 < cap) (l : List α) (x : α) :
    push cap (l.rtake cap) x = (l ++ [x]).rtake cap := by
  obtain ⟨c, rfl⟩ : ∃ c, cap = c + 1 := ⟨cap - 1, by omega⟩
  rw [List.rtake_concat_succ, push]
  congr 1
  unfold List.rtake
  by_cases hlen : l.length < c + 1
  · rw [if_pos (by simp; omega), show l.length - (c + 1) = 0 by omega, show l.length - c = 0 by omega]
  · rw [if_neg (by simp; omega), List.tail_drop]
    congr 1
    omega

theorem rtake_rtake (l : List α) (m n : Nat) : (l.rtake m).rtake n = l.rtake (min n m) := by
  simp only [List.rtake_eq_reverse_take_reverse, List.reverse_reverse, List.take_take]

/-! ## The numbered history of a FIFO -/

/-- The FIFO with its whole history: every element carries its number in the
order of arrival, and is in exactly one of `taken`, `live` and `lost`. -/
structure Ledger (α : Type*) where
  pushed : List α
  taken : List (Nat × α)
  live : List (Nat × α)
  lost : List (Nat × α)

inductive Op (α : Type*) where
  | push (x : α)
  | pop (n : Nat)

namespace Ledger

def empty : Ledger α := ⟨[], [], [], []⟩

def step (cap : Nat) (g : Ledger α) : Op α → Ledger α
  | .push x =>
    { g with
      pushed := g.pushed ++ [x]
      live := BoundedFifo.push cap g.live (g.pushed.length, x)
      lost := g.lost ++ evicted cap g.live }
  | .pop n => { g with taken := g.taken ++ g.live.take n, live := g.live.drop n }

def run (cap : Nat) (ops : List (Op α)) : Ledger α := ops.foldl (step cap) empty

@[simp] theorem run_nil (cap : Nat) : run cap ([] : List (Op α)) = empty := rfl

@[simp] theorem run_snoc (cap : Nat) (ops : List (Op α)) (op : Op α) :
    run cap (ops ++ [op]) = step cap (run cap ops) op := by simp [run]

/-- The numbers of a list of numbered elements. -/
def nums (l : List (Nat × α)) : List Nat := l.map Prod.fst

@[simp] theorem nums_append (l m : List (Nat × α)) : nums (l ++ m) = nums l ++ nums m :=
  List.map_append

/-- What every history satisfies: the live elements are the most recent ones,
each number is in one place, and what is lost is more than `cap` arrivals old. -/
structure Good (cap : Nat) (g : Ledger α) : Prop where
  liveLe : g.live.length ≤ cap
  livePushed : g.live.length ≤ g.pushed.length
  liveNums : nums g.live = List.range' (g.pushed.length - g.live.length) g.live.length
  sorted : (nums (g.taken ++ g.live)).Pairwise (· < ·)
  places : (nums (g.taken ++ g.live ++ g.lost)).Perm (List.range g.pushed.length)
  lostOld : ∀ i ∈ nums g.lost, i + cap < g.pushed.length
  named : ∀ p ∈ g.taken ++ g.live ++ g.lost, g.pushed[p.1]? = some p.2

theorem Good.empty (cap : Nat) : Good cap (Ledger.empty : Ledger α) where
  liveLe := Nat.zero_le _
  livePushed := Nat.le_refl _
  liveNums := rfl
  sorted := List.Pairwise.nil
  places := List.Perm.refl _
  lostOld := by simp [Ledger.empty, nums]
  named := by simp [Ledger.empty]

theorem Good.mem_iff {cap : Nat} {g : Ledger α} (h : Good cap g) (i : Nat) :
    i < g.pushed.length ↔ i ∈ nums g.taken ∨ i ∈ nums g.live ∨ i ∈ nums g.lost := by
  have := h.places.mem_iff (a := i)
  simp only [nums_append, List.mem_append, List.mem_range, or_assoc] at this
  exact this.symm

theorem Good.lengths {cap : Nat} {g : Ledger α} (h : Good cap g) :
    g.taken.length + g.live.length + g.lost.length = g.pushed.length := by
  have := h.places.length_eq
  simpa [nums, Nat.add_assoc] using this

/-- A number that is taken or live is not lost. -/
theorem Good.not_lost {cap : Nat} {g : Ledger α} (h : Good cap g) {i : Nat}
    (hi : i ∈ nums (g.taken ++ g.live)) : i ∉ nums g.lost := by
  have hd := (h.places.nodup_iff.mpr List.nodup_range)
  rw [nums_append] at hd
  exact fun hl => (List.nodup_append.mp hd).2.2 i hi i hl rfl

theorem Good.not_taken {cap : Nat} {g : Ledger α} (h : Good cap g) {i : Nat}
    (hi : i ∈ nums g.live) : i ∉ nums g.taken := by
  have hs := h.sorted
  rw [nums_append] at hs
  exact fun ht => absurd ((List.pairwise_append.mp hs).2.2 i ht i hi) (Nat.lt_irrefl i)

/-- A full ledger evicts the number `cap` behind the one that arrives. -/
theorem Good.mem_evicted_iff {cap : Nat} {g : Ledger α} (h : Good cap g) (hc : 0 < cap) (i : Nat) :
    i ∈ nums (evicted cap g.live) ↔ g.pushed.length = i + cap ∧ i ∉ nums g.taken := by
  have hn := h.liveNums
  have hle := h.livePushed
  unfold evicted
  split
  · rename_i hlt
    simp only [nums, List.map_nil, List.not_mem_nil, false_iff, not_and, not_not]
    intro hi
    have hmem := (h.mem_iff i).mp (by omega)
    rcases hmem with ht | hl | hl
    · exact ht
    · rw [hn, List.mem_range'_1] at hl; omega
    · have := h.lostOld i hl; omega
  · rename_i hfull
    have hfull : g.live.length = cap := le_antisymm h.liveLe (by omega)
    have hhead : nums (g.live.take 1) = [g.pushed.length - cap] := by
      rw [nums, List.map_take, ← nums, hn, hfull]
      obtain ⟨c, rfl⟩ : ∃ c, cap = c + 1 := ⟨cap - 1, by omega⟩
      simp [List.range'_succ]
    rw [hhead, List.mem_singleton]
    constructor
    · rintro rfl
      refine ⟨by omega, h.not_taken ?_⟩
      rw [hn, List.mem_range'_1]; omega
    · intro hi; omega

/-- Every element has the number of an arrival. -/
theorem Good.lt {cap : Nat} {g : Ledger α} (h : Good cap g) {p : Nat × α}
    (hp : p ∈ g.taken ++ g.live ++ g.lost) : p.1 < g.pushed.length :=
  (List.getElem?_eq_some_iff.mp (h.named p hp)).1

/-- The live numbers after a push are the last ones again. -/
theorem Good.push_nums {cap : Nat} {g : Ledger α} (h : Good cap g) (hc : 0 < cap) (x : α) :
    nums (BoundedFifo.push cap g.live (g.pushed.length, x)) =
      List.range' (g.pushed.length + 1 - min (g.live.length + 1) cap)
        (min (g.live.length + 1) cap) := by
  have hn := h.liveNums
  have hle := h.livePushed
  have hcap := h.liveLe
  rw [push_eq, nums_append]
  unfold kept
  split
  · rename_i hroom
    rw [hn, min_eq_left (by omega), List.range'_concat]
    simp [nums]; omega
  · rename_i hfull
    have hlen : g.live.length = cap := by omega
    rw [min_eq_right (by omega), nums, List.map_tail, ← nums, hn, hlen]
    obtain ⟨c, rfl⟩ : ∃ c, cap = c + 1 := ⟨cap - 1, by omega⟩
    rw [List.range'_succ, List.tail_cons, List.range'_concat]
    simp [nums]; omega

/-- The kept elements are a sublist, and the arrival has the largest number. -/
theorem Good.push_sorted {cap : Nat} {g : Ledger α} (h : Good cap g) (x : α) :
    (nums (g.taken ++ BoundedFifo.push cap g.live (g.pushed.length, x))).Pairwise (· < ·) := by
  have hsub : (nums (g.taken ++ kept cap g.live)).Sublist (nums (g.taken ++ g.live)) :=
    ((kept_sublist cap g.live).append_left g.taken).map Prod.fst
  rw [push_eq, ← List.append_assoc, nums_append, List.pairwise_append]
  refine ⟨h.sorted.sublist hsub, List.pairwise_singleton _ _, ?_⟩
  intro i hi j hj
  obtain ⟨p, hp, rfl⟩ := List.mem_map.mp (hsub.subset hi)
  rw [show j = g.pushed.length by simpa [nums] using hj]
  exact h.lt (List.mem_append_left _ hp)

/-- A push moves the evicted element to the lost ones and adds one number. -/
theorem Good.push_places {cap : Nat} {g : Ledger α} (h : Good cap g) (x : α) :
    (nums (g.taken ++ BoundedFifo.push cap g.live (g.pushed.length, x) ++
      (g.lost ++ evicted cap g.live))).Perm (List.range (g.pushed.length + 1)) := by
  have hp := h.places
  simp only [nums_append] at hp
  rw [← evicted_append_kept cap g.live, nums_append] at hp
  simp only [push_eq, nums_append, List.range_succ]
  rw [List.perm_iff_count] at hp ⊢
  intro a
  have := hp a
  simp only [List.count_append, nums, List.map_cons, List.map_nil] at this ⊢
  omega

theorem mem_step_push {cap : Nat} {g : Ledger α} {x : α} {p : Nat × α}
    (hp : p ∈ g.taken ++ BoundedFifo.push cap g.live (g.pushed.length, x) ++
      (g.lost ++ evicted cap g.live)) :
    p ∈ g.taken ++ g.live ++ g.lost ∨ p = (g.pushed.length, x) := by
  have hevicted : p ∈ evicted cap g.live → p ∈ g.live := fun he => by
    rw [← evicted_append_kept cap g.live]
    exact List.mem_append_left _ he
  simp only [push_eq, List.mem_append, List.mem_singleton] at hp ⊢
  rcases hp with (hp | hp | hp) | hp | hp
  · exact .inl (.inl (.inl hp))
  · exact .inl (.inl (.inr ((kept_sublist cap g.live).mem hp)))
  · exact .inr hp
  · exact .inl (.inr hp)
  · exact .inl (.inl (.inr (hevicted hp)))

theorem Good.push {cap : Nat} {g : Ledger α} (h : Good cap g) (hc : 0 < cap) (x : α) :
    Good cap (step cap g (.push x)) where
  liveLe := by
    simp only [step]
    rw [push_length _ hc h.liveLe]
    exact Nat.min_le_right _ _
  livePushed := by
    have hle := h.livePushed
    simp only [step, List.length_append, List.length_singleton]
    rw [push_length _ hc h.liveLe]
    omega
  liveNums := by
    simp only [step, List.length_append, List.length_singleton]
    rw [push_length _ hc h.liveLe]
    exact h.push_nums hc x
  sorted := h.push_sorted x
  places := by simpa only [step, List.length_append, List.length_singleton] using h.push_places x
  lostOld := by
    intro i hi
    simp only [step, nums_append, List.mem_append] at hi
    simp only [step, List.length_append, List.length_singleton]
    rcases hi with hi | hi
    · have := h.lostOld i hi
      omega
    · have := ((h.mem_evicted_iff hc i).mp hi).1
      omega
  named := by
    intro p hp
    simp only [step] at hp ⊢
    rcases mem_step_push hp with hp | rfl
    · rw [List.getElem?_append_left (h.lt hp)]
      exact h.named p hp
    · exact List.getElem?_concat_length

theorem Good.pop {cap : Nat} {g : Ledger α} (h : Good cap g) (n : Nat) :
    Good cap (step cap g (.pop n)) := by
  have hwhole : g.taken ++ g.live.take n ++ g.live.drop n = g.taken ++ g.live := by
    rw [List.append_assoc, List.take_append_drop]
  have hle := h.livePushed
  refine ⟨?_, ?_, ?_, ?_, ?_, h.lostOld, ?_⟩
  · simp only [step, List.length_drop]
    exact (Nat.sub_le _ _).trans h.liveLe
  · simp only [step, List.length_drop]; omega
  · simp only [step, nums, List.map_drop, List.length_drop]
    rw [← nums, h.liveNums, List.drop_range']
    by_cases hn : n ≤ g.live.length
    · congr 1
      omega
    · rw [show g.live.length - n = 0 by omega]
      rfl
  · simpa only [step, hwhole] using h.sorted
  · simpa only [step, hwhole] using h.places
  · simpa only [step, hwhole] using h.named

theorem good_run {cap : Nat} (hc : 0 < cap) (ops : List (Op α)) : Good cap (run cap ops) := by
  induction ops using List.reverseRecOn with
  | nil => exact Good.empty cap
  | append_singleton ops op ih =>
    rw [run_snoc]
    cases op with
    | push x => exact ih.push hc x
    | pop n => exact ih.pop n

/-- **Which elements a run loses.** Number `i` is lost exactly when number
`i + cap` arrived while `i` had not been taken. -/
theorem lost_iff {cap : Nat} (hc : 0 < cap) (ops : List (Op α)) (i : Nat) :
    i ∈ nums (run cap ops).lost ↔ ∃ k x, ops[k]? = some (.push x) ∧
      (run cap (ops.take k)).pushed.length = i + cap ∧
      i ∉ nums (run cap (ops.take k)).taken := by
  induction ops using List.reverseRecOn with
  | nil => simp [empty, nums]
  | append_singleton ops op ih =>
    have hsplit : (∃ k x, (ops ++ [op])[k]? = some (.push x) ∧
          (run cap ((ops ++ [op]).take k)).pushed.length = i + cap ∧
          i ∉ nums (run cap ((ops ++ [op]).take k)).taken) ↔
        i ∈ nums (run cap ops).lost ∨ (∃ x, op = .push x) ∧
          (run cap ops).pushed.length = i + cap ∧ i ∉ nums (run cap ops).taken := by
      rw [ih]
      constructor
      · rintro ⟨k, x, hx, hlen, hnot⟩
        rcases Nat.lt_trichotomy k ops.length with hk | rfl | hk
        · rw [List.getElem?_append_left hk] at hx
          rw [List.take_append_of_le_length hk.le] at hlen hnot
          exact .inl ⟨k, x, hx, hlen, hnot⟩
        · rw [List.getElem?_concat_length, Option.some.injEq] at hx
          rw [List.take_left] at hlen hnot
          exact .inr ⟨⟨x, hx⟩, hlen, hnot⟩
        · rw [List.getElem?_eq_none (by simpa using hk)] at hx
          cases hx
      · rintro (⟨k, x, hx, hlen, hnot⟩ | ⟨⟨x, rfl⟩, hlen, hnot⟩)
        · have hk : k < ops.length := (List.getElem?_eq_some_iff.mp hx).1
          refine ⟨k, x, ?_, ?_⟩
          · rw [List.getElem?_append_left hk]; exact hx
          · rw [List.take_append_of_le_length hk.le]; exact ⟨hlen, hnot⟩
        · refine ⟨ops.length, x, List.getElem?_concat_length, ?_⟩
          rw [List.take_left]; exact ⟨hlen, hnot⟩
    rw [hsplit, run_snoc]
    cases op with
    | push x =>
      rw [← (good_run hc ops).mem_evicted_iff hc]
      simp [step]
    | pop n => simp [step]

end Ledger

end Syswatch.Lib.BoundedFifo
