import Mathlib.Data.List.Forall2
import Mathlib.Data.List.Induction

/-! # Runs of a partial machine

A machine is a partial step function `σ → ι → Option σ`: it answers `none`
where the label is not possible in the state. A run folds a list of labels.
Invariants may speak about the labels consumed so far, so that a property of
the whole history is an ordinary invariant. -/

namespace Syswatch.Lib.Machine

variable {σ ι : Type*} {step : σ → ι → Option σ}

/-- The state after a list of labels, if every label was possible. -/
def run (step : σ → ι → Option σ) (s : σ) (is : List ι) : Option σ := is.foldlM step s

@[simp] theorem run_nil (s : σ) : run step s [] = some s := rfl

@[simp] theorem run_cons (s : σ) (i : ι) (is : List ι) :
    run step s (i :: is) = (step s i).bind fun t => run step t is := by
  simp [run, List.foldlM_cons]

theorem run_append (s : σ) (is js : List ι) :
    run step s (is ++ js) = (run step s is).bind fun t => run step t js := by
  simp [run, List.foldlM_append]

theorem run_snoc {s u : σ} {is : List ι} {i : ι} :
    run step s (is ++ [i]) = some u ↔ ∃ t, run step s is = some t ∧ step t i = some u := by
  simp [run_append, Option.bind_eq_some_iff]

/-- **Invariants over histories.** What holds initially of the empty history
and is preserved by every step holds at the end of every run. -/
theorem run_invariant {P : List ι → σ → Prop} {s : σ} (h0 : P [] s)
    (hs : ∀ is t i u, run step s is = some t → P is t → step t i = some u → P (is ++ [i]) u) :
    ∀ {is : List ι} {t : σ}, run step s is = some t → P is t := by
  intro is
  induction is using List.reverseRecOn with
  | nil => intro t h; cases h; exact h0
  | append_singleton is i ih =>
    intro u h
    obtain ⟨t, ht, hu⟩ := run_snoc.mp h
    exact hs is t i u ht (ih ht) hu

/-- The same for a property of the state alone. -/
theorem run_preserves {P : σ → Prop} {s t : σ} {is : List ι} (h : run step s is = some t)
    (h0 : P s) (hs : ∀ s i t, P s → step s i = some t → P t) : P t :=
  run_invariant (P := fun _ t => P t) h0 (fun _ t i u _ ht hu => hs t i u ht hu) h

/-- **Counting steps.** A measure that falls at the labels that count, and at no
label rises, bounds how many of them a run has. -/
theorem run_countP_le {P : σ → Prop} {counts : ι → Bool} {measure : σ → Nat}
    (hs : ∀ s i t, P s → step s i = some t →
      P t ∧ measure t + (if counts i then 1 else 0) ≤ measure s)
    {s t : σ} {is : List ι} (h0 : P s) (h : run step s is = some t) :
    is.countP counts + measure t ≤ measure s := by
  induction is generalizing s with
  | nil =>
    cases h
    simp
  | cons i is ih =>
    rw [run_cons] at h
    obtain ⟨u, hu, h⟩ := Option.bind_eq_some_iff.mp h
    obtain ⟨hP, hle⟩ := hs s i u h0 hu
    have hrest := ih hP h
    rw [List.countP_cons]
    omega

/-- **A part of a machine.** Where each step is a step of the part, under the label
that `project` gives it, or leaves the part as it was, a run is a run of the part. -/
theorem run_part {τ κ : Type*} {part : τ → κ → Option τ} {project : ι → Option κ} {R : σ → τ → Prop}
    (hs : ∀ s t i u, R s t → step s i = some u → (project i = none → R u t) ∧
      ∀ k, project i = some k → ∃ v, part t k = some v ∧ R u v)
    {s u : σ} {t : τ} {is : List ι} (h0 : R s t) (h : run step s is = some u) :
    ∃ v, run part t (is.filterMap project) = some v ∧ R u v := by
  induction is generalizing s t with
  | nil =>
    cases h
    exact ⟨t, rfl, h0⟩
  | cons i is ih =>
    rw [run_cons] at h
    obtain ⟨m, hm, h⟩ := Option.bind_eq_some_iff.mp h
    obtain ⟨hnone, hsome⟩ := hs s t i m h0 hm
    cases hi : project i with
    | none =>
      rw [List.filterMap_cons_none hi]
      exact ih (hnone hi) h
    | some k =>
      obtain ⟨v, hv, hR⟩ := hsome k hi
      rw [List.filterMap_cons_some hi, run_cons, hv]
      exact ih hR h

/-- A loop `for (i = 0; i < n; i++)` whose every turn has a result and keeps
what is known of the turns so far. -/
theorem foldlM_range_spec {k : Nat} {f : σ → Nat → Option σ} {P : Nat → σ → Prop}
    {s : σ} (h0 : P 0 s) (hturn : ∀ i < k, ∀ s, P i s → ∃ t, f s i = some t ∧ P (i + 1) t) :
    ∃ t, (List.range k).foldlM f s = some t ∧ P k t := by
  induction k with
  | zero => exact ⟨s, rfl, h0⟩
  | succ k ih =>
    obtain ⟨t, ht, hP⟩ := ih fun i hi => hturn i (by omega)
    obtain ⟨u, hu, hP'⟩ := hturn k k.lt_succ_self t hP
    exact ⟨u, by simp [List.range_succ, List.foldlM_append, ht, hu], hP'⟩

/-! ## Machines that always answer -/

variable {ρ τ : Type*}

/-- The replies to a list of calls, and the state after them. -/
def trace (exec : σ → ι → ρ × σ) (s : σ) : List ι → List ρ × σ
  | [] => ([], s)
  | i :: is => ((exec s i).1 :: (trace exec (exec s i).2 is).1, (trace exec (exec s i).2 is).2)

/-- **Two runs.** Machines whose steps keep a relation between their states and
answer alike answer alike over calls that correspond. -/
theorem trace_related {κ ρ' : Type*} {exec : σ → ι → ρ × σ} {spec : τ → κ → ρ' × τ}
    {R : σ → τ → Prop} {A : ρ → ρ' → Prop} {C : ι → κ → Prop}
    (hstep : ∀ s t i j, C i j → R s t → A (exec s i).1 (spec t j).1 ∧ R (exec s i).2 (spec t j).2)
    {is : List ι} {js : List κ} (h : List.Forall₂ C is js) {s : σ} {t : τ} (hR : R s t) :
    List.Forall₂ A (trace exec s is).1 (trace spec t js).1 ∧
      R (trace exec s is).2 (trace spec t js).2 := by
  induction h generalizing s t with
  | nil => exact ⟨.nil, hR⟩
  | @cons i j is js hij _ ih =>
    obtain ⟨hreply, hnext⟩ := hstep s t i j hij hR
    obtain ⟨hreplies, hfinal⟩ := ih hnext
    exact ⟨.cons hreply hreplies, hfinal⟩

/-- **Forward simulation.** The same over one list of calls. -/
theorem trace_simulation {ρ' : Type*} {exec : σ → ι → ρ × σ} {spec : τ → ι → ρ' × τ}
    {R : σ → τ → Prop} {A : ρ → ρ' → Prop}
    (hstep : ∀ s t i, R s t → A (exec s i).1 (spec t i).1 ∧ R (exec s i).2 (spec t i).2)
    (is : List ι) {s : σ} {t : τ} (h : R s t) :
    List.Forall₂ A (trace exec s is).1 (trace spec t is).1 ∧
      R (trace exec s is).2 (trace spec t is).2 :=
  trace_related (C := Eq) (fun s t i _ hij hR => hij ▸ hstep s t i hR) (List.forall₂_refl is) h

/-- What every reply satisfies, whatever the state. -/
theorem trace_replies {exec : σ → ι → ρ × σ} {P : ρ → Prop} (h : ∀ s i, P (exec s i).1)
    (is : List ι) (s : σ) : ∀ r ∈ (trace exec s is).1, P r := by
  induction is generalizing s with
  | nil => simp [trace]
  | cons i is ih =>
    rw [trace, List.forall_mem_cons]
    exact ⟨h s i, ih _⟩

/-! ## Overwriting -/

/-- **The last write wins.** Where every step writes an observation or leaves it
alone, the observation at the end is the last one written, or the first of all. -/
theorem foldl_last_write {β : Type*} {apply : σ → ι → σ} {P : σ → Prop} {get : σ → β}
    {write : ι → Option β} {is : List ι} (hP : ∀ i ∈ is, ∀ s, P s → P (apply s i))
    (hget : ∀ i ∈ is, ∀ s, P s → get (apply s i) = (write i).getD (get s)) :
    ∀ {s : σ}, P s → get (is.foldl apply s) = ((is.filterMap write).getLast?).getD (get s) := by
  induction is with
  | nil => intro s _; rfl
  | cons i is ih =>
    intro s hs
    rw [List.foldl_cons, ih (fun j hj => hP j (by simp [hj])) (fun j hj => hget j (by simp [hj]))
      (hP i (by simp) s hs), hget i (by simp) s hs, List.filterMap_cons]
    cases hw : write i with
    | none => rfl
    | some b =>
      rw [List.getLast?_cons]
      rfl

end Syswatch.Lib.Machine
