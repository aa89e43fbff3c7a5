import Mathlib.Data.List.Perm.Basic
import Mathlib.Order.Lattice

/-! # Sorting, and keeping the first

A sorting procedure that is known by its contract only: with a comparison
function that is a weak order, it leaves a permutation in which no element
comes behind a later one. Its first elements are then a selection of the list. -/

namespace Syswatch.Lib.Selection

variable {α β κ : Type*}

/-- Negative for what comes first, positive for what comes later, and 0 for what
may come in any order. -/
structure WeakOrder (cmp : α → α → Int) : Prop where
  swap : ∀ a b, 0 < cmp a b ↔ cmp b a < 0
  trans : ∀ a b c, cmp a b ≤ 0 → cmp b c ≤ 0 → cmp a c ≤ 0

/-- The contract of a sorting procedure. -/
def Sorts (sort : (α → α → Int) → List α → List α) : Prop :=
  ∀ cmp, WeakOrder cmp → ∀ l,
    (sort cmp l).Perm l ∧ (sort cmp l).Pairwise fun a b => cmp a b ≤ 0

/-- A comparison of keys by which the greatest comes first. -/
def descending [LinearOrder κ] (key : α → κ) (a b : α) : Int :=
  if key a < key b then 1 else if key a > key b then -1 else 0

theorem descending_nonpos_iff [LinearOrder κ] (key : α → κ) (a b : α) :
    descending key a b ≤ 0 ↔ key b ≤ key a := by
  unfold descending
  split_ifs with hlt hgt
  · simp [hlt]
  · simp [hgt.le]
  · simp [not_lt.mp hlt]

theorem descending_weakOrder [LinearOrder κ] (key : α → κ) : WeakOrder (descending key) where
  swap a b := by
    unfold descending
    rcases lt_trichotomy (key a) (key b) with h | h | h
    · simp [h, h.not_gt]
    · simp [h]
    · simp [h, h.not_gt]
  trans a b c hab hbc := by
    rw [descending_nonpos_iff] at hab hbc ⊢
    exact hbc.trans hab

/-! ## The first elements -/

/-- `kept` are `count` elements of the list, none of which comes behind another
that is left. -/
structure Selected (before : α → α → Prop) (l : List α) (count : Nat) (kept left : List α) : Prop where
  length : kept.length = min count l.length
  perm : (kept ++ left).Perm l
  sorted : kept.Pairwise before
  first : ∀ a ∈ kept, ∀ b ∈ left, before a b

theorem Sorts.selected {sort : (α → α → Int) → List α → List α} (h : Sorts sort) {cmp : α → α → Int}
    (hcmp : WeakOrder cmp) (l : List α) (count : Nat) :
    Selected (fun a b => cmp a b ≤ 0) l count ((sort cmp l).take count) ((sort cmp l).drop count) := by
  obtain ⟨hperm, hsorted⟩ := h cmp hcmp l
  have hsplit : (sort cmp l).take count ++ (sort cmp l).drop count = sort cmp l :=
    List.take_append_drop count _
  rw [← hsplit, List.pairwise_append] at hsorted
  obtain ⟨hkept, -, hfirst⟩ := hsorted
  refine ⟨?_, ?_, hkept, hfirst⟩
  · rw [List.length_take, hperm.length_eq]
  · rwa [hsplit]

theorem Selected.imp {before before' : α → α → Prop} {l : List α} {count : Nat} {kept left : List α}
    (h : Selected before l count kept left) (himp : ∀ a b, before a b → before' a b) :
    Selected before' l count kept left :=
  ⟨h.length, h.perm, h.sorted.imp (himp _ _), fun a ha b hb => himp a b (h.first a ha b hb)⟩

/-- What is selected of the images are the images of a selection. -/
theorem Selected.of_map {f : α → β} {before : β → β → Prop} {l : List α} {count : Nat}
    {kept left : List β} (h : Selected before (l.map f) count kept left) :
    ∃ kept' left', kept = kept'.map f ∧ left = left'.map f ∧
      Selected (fun a b => before (f a) (f b)) l count kept' left' := by
  obtain ⟨l', hl', hperm⟩ : ∃ l' : List α, kept ++ left = l'.map f ∧ l'.Perm l := by
    have hlift := List.eq_map_comp_perm f
    have := congrFun (congrFun hlift (kept ++ left)) l
    exact this.mpr h.perm
  obtain ⟨kept', left', rfl, rfl, rfl⟩ := List.map_eq_append_iff.mp hl'.symm
  refine ⟨kept', left', rfl, rfl, ?_, hperm, List.pairwise_map.mp h.sorted, ?_⟩
  · simpa using h.length
  · intro a ha b hb
    exact h.first (f a) (List.mem_map_of_mem ha) (f b) (List.mem_map_of_mem hb)

end Syswatch.Lib.Selection
