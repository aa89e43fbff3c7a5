import Syswatch.Backoff
import Syswatch.OutputRefinement

/-! # How often a batch is posted

Which attempt is the last depends on the outcomes alone. Whatever they are, the
batch is gone afterwards and the rest of the state is as before. But from the
thirty-third attempt on the pause is a shift that C leaves undefined. -/

namespace Syswatch.OutputRetries
open Lib.CText OutputMemory OutputRefinement Backoff

/-! ## The last attempt -/

/-- The outcomes that are not tried again. -/
def Ends : HttpOutcome → Prop
  | .transportError => False
  | .response code => 200 ≤ code ∧ code < 300 ∨ 400 ≤ code ∧ code < 500 ∧ code ≠ 429

theorem verdict_retry_iff (outcome : HttpOutcome) : verdict outcome = .retry ↔ ¬Ends outcome := by
  cases outcome with
  | transportError => simp [verdict, Ends]
  | response code =>
    simp only [verdict, Ends, ge_iff_le]
    split
    · next h => simp [h]
    · next h =>
      split
      · next h' => simp [h']
      · next h' => simp [h, h']

/-- The number of POSTs: the position of the first outcome that is not tried
again among the first `retries + 1`, or `retries + 1` if there is none. -/
def LastAttempt (outcome : Nat → HttpOutcome) (retries k : Nat) : Prop :=
  (∃ i ≤ retries, Ends (outcome i) ∧ (∀ j < i, ¬Ends (outcome j)) ∧ k = i + 1) ∨
    (∀ i ≤ retries, ¬Ends (outcome i)) ∧ k = retries + 1

theorem performed_of_ends (b : Int32) {outcome : Nat → HttpOutcome} {i left : Nat} (hi : i < left)
    (attempt : Nat) (hend : Ends (outcome (attempt + i)))
    (hbefore : ∀ j < i, ¬Ends (outcome (attempt + j))) :
    (attemptLoop b outcome left attempt).performed = i + 1 := by
  induction i generalizing left attempt with
  | zero =>
    obtain ⟨left, rfl⟩ := Nat.exists_eq_succ_of_ne_zero hi.ne'
    rw [attemptLoop]
    cases hv : verdict (outcome attempt) with
    | delivered | refused => rfl
    | retry => exact absurd hend ((verdict_retry_iff _).mp hv)
  | succ i ih =>
    obtain ⟨left, rfl⟩ := Nat.exists_eq_succ_of_ne_zero (Nat.ne_of_gt (Nat.zero_lt_of_lt hi))
    have hfirst : verdict (outcome attempt) = .retry :=
      (verdict_retry_iff _).mpr (hbefore 0 i.succ_pos)
    rw [attemptLoop, hfirst]
    refine congrArg (· + 1) (ih (Nat.lt_of_succ_lt_succ hi) (attempt + 1) ?_ fun j hj => ?_)
    · rwa [Nat.add_right_comm, Nat.add_assoc]
    · rw [Nat.add_right_comm, Nat.add_assoc]
      exact hbefore (j + 1) (Nat.succ_lt_succ hj)

theorem performed_of_none (b : Int32) {outcome : Nat → HttpOutcome} {left : Nat} (attempt : Nat)
    (h : ∀ i < left, ¬Ends (outcome (attempt + i))) :
    (attemptLoop b outcome left attempt).performed = left := by
  induction left generalizing attempt with
  | zero => rfl
  | succ left ih =>
    have hfirst : verdict (outcome attempt) = .retry :=
      (verdict_retry_iff _).mpr (h 0 left.succ_pos)
    rw [attemptLoop, hfirst]
    refine congrArg (· + 1) (ih (attempt + 1) fun i hi => ?_)
    rw [Nat.add_right_comm, Nat.add_assoc]
    exact h (i + 1) (Nat.succ_lt_succ hi)

theorem lastAttempt_performed (b : Int32) (outcome : Nat → HttpOutcome) (retries : Nat) :
    LastAttempt outcome retries (attemptLoop b outcome (retries + 1) 0).performed := by
  by_cases h : ∃ i, i ≤ retries ∧ Ends (outcome i)
  · classical
    obtain ⟨hi, hend⟩ := Nat.find_spec h
    have hbefore : ∀ j < Nat.find h, ¬Ends (outcome j) := fun j hj he =>
      Nat.find_min h hj ⟨by omega, he⟩
    refine .inl ⟨Nat.find h, hi, hend, hbefore, ?_⟩
    refine performed_of_ends b (Nat.lt_succ_of_le hi) 0 ?_ fun j hj => ?_
    · rwa [Nat.zero_add]
    · rw [Nat.zero_add]
      exact hbefore j hj
  · have hnone : ∀ i ≤ retries, ¬Ends (outcome i) := fun i hi he => h ⟨i, hi, he⟩
    refine .inr ⟨hnone, performed_of_none b 0 fun i hi => ?_⟩
    rw [Nat.zero_add]
    exact hnone i (Nat.le_of_lt_succ hi)

theorem lastAttempt_unique {outcome : Nat → HttpOutcome} {retries k k' : Nat}
    (h : LastAttempt outcome retries k) (h' : LastAttempt outcome retries k') : k = k' := by
  rcases h with ⟨i, hi, he, hb, rfl⟩ | ⟨hnone, rfl⟩
  · rcases h' with ⟨i', hi', he', hb', rfl⟩ | ⟨hnone', rfl⟩
    · rcases Nat.lt_trichotomy i i' with hlt | rfl | hlt
      · exact absurd he (hb' i hlt)
      · rfl
      · exact absurd he' (hb i' hlt)
    · exact absurd he (hnone' i hi)
  · rcases h' with ⟨i', hi', he', hb', rfl⟩ | ⟨hnone', rfl⟩
    · exact absurd he' (hnone i' hi')
    · rfl

/-- The thirty-third attempt is the last that can be made. -/
theorem lastAttempt_le_iff {outcome : Nat → HttpOutcome} {retries k : Nat}
    (h : LastAttempt outcome retries k) : k ≤ 33 ↔ retries ≤ 32 ∨ ∃ i ≤ 32, Ends (outcome i) := by
  rcases h with ⟨i, hi, he, hbefore, rfl⟩ | ⟨hnone, rfl⟩
  · constructor
    · intro hle
      exact .inr ⟨i, by omega, he⟩
    · rintro (hle | ⟨j, hj, hend⟩)
      · omega
      · have hij : i ≤ j := not_lt.mp fun hlt => hbefore j hlt hend
        omega
  · constructor
    · intro hle
      exact .inl (by omega)
    · rintro (hle | ⟨j, hj, hend⟩)
      · omega
      · have hlt : retries < j := not_le.mp fun hle => hnone j hle hend
        omega

/-! ## What a call does -/

def postsOf (actions : List Action) : List Request :=
  actions.filterMap fun
    | .post r => some r
    | _ => none

def sleepsOf (actions : List Action) : List (Option UInt32) :=
  actions.filterMap fun
    | .sleep seconds => some seconds
    | _ => none

theorem postsOf_append (as bs : List Action) : postsOf (as ++ bs) = postsOf as ++ postsOf bs :=
  List.filterMap_append

theorem sleepsOf_append (as bs : List Action) : sleepsOf (as ++ bs) = sleepsOf as ++ sleepsOf bs :=
  List.filterMap_append

/-- The POSTs and the pauses among the actions of some attempts. -/
theorem attemptActions_projections (r : Request) (a : Attempts) :
    postsOf (attemptActions r a) = List.replicate a.performed r ∧
      sleepsOf (attemptActions r a) = a.sleeps.take a.performed := by
  obtain ⟨n, _, sleeps⟩ := a
  unfold attemptActions
  dsimp only
  induction n with
  | zero => exact ⟨rfl, rfl⟩
  | succ n ih =>
    obtain ⟨hposts, hsleeps⟩ := ih
    rw [List.range_succ, List.flatMap_append, postsOf_append, sleepsOf_append, List.replicate_succ',
      List.take_add_one]
    generalize hlast : sleeps[n]? = last
    refine ⟨congrArg₂ (· ++ ·) hposts ?_, congrArg₂ (· ++ ·) hsleeps ?_⟩
    · rw [List.flatMap_singleton, hlast]
      cases last <;> rfl
    · rw [List.flatMap_singleton, hlast]
      cases last <;> rfl

theorem said_silent {said : List Action} (h : ∀ x ∈ said, Action.Acts x = false) :
    postsOf said = [] ∧ sleepsOf said = [] := by
  constructor
  · refine List.filterMap_eq_nil_iff.mpr fun x hx => ?_
    cases x <;> first | rfl | cases h _ hx
  · refine List.filterMap_eq_nil_iff.mpr fun x hx => ?_
    cases x <;> first | rfl | cases h _ hx

/-- The batch is given up, and nothing else is touched. -/
structure Cleaned (m m' : OutputMemory) : Prop where
  count : m'.batchCount = 0
  started : m'.batchStarted = false
  slots : ∀ slot ∈ m'.batchItems.getD [], slot = none
  places : (m'.batchItems.getD []).length = (m.batchItems.getD []).length
  rest : m' = { m with batchItems := m'.batchItems, batchCount := 0, batchStarted := false }

theorem cleaned_of_freed {m m' : OutputMemory} {items : List Bytes} (h : Holds m items)
    (h' : Holds m' []) (hview : m'.view [] = Syswatch.freeBatchItems (m.view items)) :
    Cleaned m m' where
  count := h'.count
  started := congrArg OutputState.batchStarted hview
  slots slot hslot := by
    rw [h'.slots] at hslot
    exact List.eq_of_mem_replicate hslot
  places := by
    have hcapacity : m'.batchCapacity = m.batchCapacity := congrArg OutputState.batchCapacity hview
    have hroom := h.room
    rw [h.slots, h'.slots, hcapacity]
    simp [hroom]
  rest := by
    have hcount := h'.count
    obtain ⟨⟩ := m
    obtain ⟨⟩ := m'
    simp only [view, Syswatch.freeBatchItems, OutputState.mk.injEq] at hview
    simp_all

/-- As many POSTs of one body as the outcomes ask for, with what is computed of the pause
between any two of them, and the batch is gone afterwards. -/
theorem httpPostBatch_attempts {m : OutputMemory} {items : List Bytes} (h : Holds m items)
    (hne : items ≠ []) (hretries : 0 ≤ m.retryMaxAttempts.toInt) {env : PostCall}
    (hmalloc : ∀ size, (env.malloc size).isSome = true) (hcurl : env.curlInit = true) :
    ∃ code actions m' k, m.httpPostBatch env = some (code, actions, m') ∧
      LastAttempt (fun i => (env.answer i).outcome) m.retryMaxAttempts.toInt.toNat k ∧
      postsOf actions = List.replicate k (m.request (postBody items)) ∧
      sleepsOf actions = (List.range (k - 1)).map (backoffSeconds m.retryBackoffSeconds) ∧
      (code = 0 ↔ ∃ i ≤ m.retryMaxAttempts.toInt.toNat, Ends (env.answer i).outcome) ∧
      Cleaned m m' := by
  obtain ⟨memory, hmemory⟩ := Option.isSome_iff_exists.mp (hmalloc (bodySize items + 1))
  obtain ⟨said, m', hsaid, hholds, hview, hrun⟩ := h.httpPostBatch_supplied hne hmemory hcurl
  have hposts : m.maxPosts = m.retryMaxAttempts.toInt.toNat + 1 := Int.toNat_add_nat hretries 1
  rw [hposts] at hrun
  generalize hattempts : attemptLoop m.retryBackoffSeconds (fun i => (env.answer i).outcome)
    (m.retryMaxAttempts.toInt.toNat + 1) 0 = attempts at hrun
  have hprojections := attemptActions_projections (m.request (postBody items)) attempts
  obtain ⟨hsaidPosts, hsaidSleeps⟩ := said_silent hsaid
  refine ⟨_, _, m', attempts.performed, hrun, ?_, ?_, ?_, ?_, cleaned_of_freed h hholds hview⟩
  · rw [← hattempts]
    exact lastAttempt_performed ..
  · rw [postsOf_append, hsaidPosts, List.append_nil]
    exact hprojections.1
  · have hsleeps := attemptLoop_sleeps m.retryBackoffSeconds (fun i => (env.answer i).outcome)
      (m.retryMaxAttempts.toInt.toNat + 1) 0
    rw [hattempts, ← List.range_eq_range'] at hsleeps
    rw [sleepsOf_append, hsaidSleeps, List.append_nil, hprojections.2, hsleeps]
    exact List.take_of_length_le (by simp)
  · have hlast := OutputDelivery.attemptLoop_last m.retryBackoffSeconds
      (fun i => (env.answer i).outcome) (m.retryMaxAttempts.toInt.toNat + 1) 0
    rw [hattempts] at hlast
    simp only [Nat.zero_add, verdict_retry_iff, Nat.lt_succ_iff] at hlast
    split
    · next hr => exact iff_of_false (by decide) fun ⟨i, hi, he⟩ => hlast.mp hr i hi he
    · next hr =>
      refine iff_of_true rfl ?_
      by_contra hnone
      exact hr (hlast.mpr fun i hi he => hnone ⟨i, hi, he⟩)

/-- The attempts of a batch as they are meant: as many POSTs of one body as the outcomes
ask for, a pause between any two of them that lasts some time, and the batch is gone. -/
def Attempted (m : OutputMemory) (items : List Bytes) (env : PostCall) : Prop :=
  ∃ code actions m' k, m.httpPostBatch env = some (code, actions, m') ∧
    LastAttempt (fun i => (env.answer i).outcome) m.retryMaxAttempts.toInt.toNat k ∧
    postsOf actions = List.replicate k (m.request (postBody items)) ∧
    (∃ waits : List UInt32, sleepsOf actions = waits.map some ∧ waits.length = k - 1) ∧
    (code = 0 ↔ ∃ i ≤ m.retryMaxAttempts.toInt.toNat, Ends (env.answer i).outcome) ∧
    Cleaned m m'

/-- Up to the thirty-third attempt every pause is defined. -/
theorem pauses_defined_iff (b : Int32) (n : Nat) :
    (∃ waits : List UInt32, (List.range n).map (backoffSeconds b) = waits.map some ∧ waits.length = n) ↔
      n ≤ 32 := by
  constructor
  · rintro ⟨waits, hwaits, rfl⟩
    by_contra hlt
    have hmem : backoffSeconds b 32 ∈ waits.map some :=
      hwaits ▸ List.mem_map_of_mem (List.mem_range.mpr (by omega))
    obtain ⟨w, -, hw⟩ := List.mem_map.mp hmem
    -- the shift by 32 is the first without a value
    rw [backoffSeconds, if_neg (lt_irrefl 32)] at hw
    cases hw
  · intro hn
    refine ⟨(List.range n).map fun a => (backoffSeconds b a).getD 0, ?_, by simp⟩
    rw [List.map_map]
    refine List.map_congr_left fun a ha => ?_
    have hlt : a < 32 := (List.mem_range.mp ha).trans_le hn
    rw [Function.comp_apply, backoffSeconds, if_pos hlt, Option.getD_some]

/-- **When the attempts of a batch are as meant**: exactly when no more than 33 are
allowed, or one of the first 33 ends the loop. -/
theorem http_post_batch_attempts_iff {m : OutputMemory} {items : List Bytes} (h : Holds m items)
    (hne : items ≠ []) (hretries : 0 ≤ m.retryMaxAttempts.toInt) {env : PostCall}
    (hmalloc : ∀ size, (env.malloc size).isSome = true) (hcurl : env.curlInit = true) :
    Attempted m items env ↔
      m.retryMaxAttempts.toInt ≤ 32 ∨ ∃ i ≤ 32, Ends (env.answer i).outcome := by
  obtain ⟨code, actions, m', k, hrun, hlast, hposts, hsleeps, hcode, hcleaned⟩ :=
    httpPostBatch_attempts h hne hretries hmalloc hcurl
  have hcount : k - 1 ≤ 32 ↔ m.retryMaxAttempts.toInt ≤ 32 ∨ ∃ i ≤ 32, Ends (env.answer i).outcome := by
    have hiff := lastAttempt_le_iff hlast
    rw [Int.toNat_le] at hiff
    rw [Nat.sub_le_iff_le_add]
    exact hiff
  rw [← hcount, ← pauses_defined_iff m.retryBackoffSeconds]
  constructor
  · rintro ⟨code', actions', m'', k', hrun', hlast', -, hwaits, -⟩
    rw [hrun] at hrun'
    cases hrun'
    obtain rfl := lastAttempt_unique hlast hlast'
    rwa [hsleeps] at hwaits
  · intro hwaits
    exact ⟨code, actions, m', k, hrun, hlast, hposts, hsleeps ▸ hwaits, hcode, hcleaned⟩

/-- Two events are buffered, of sixteen that have a place. -/
def sampleMemory : OutputMemory :=
  { fresh (OutputDelivery.httpStart Bytes OutputDelivery.httpConfig) with
    batchItems := some ([some (ascii "\x7b\x7d"), some (ascii "\x7b\"seq\":1\x7d")] ++
      List.replicate 14 none)
    batchCount := 2 }

theorem sampleMemory_holds (maxAttempts : Int32) :
    Holds { sampleMemory with retryMaxAttempts := maxAttempts }
      [ascii "\x7b\x7d", ascii "\x7b\"seq\":1\x7d"] :=
  ⟨rfl, rfl, (by decide +kernel : 2 ≤ sampleMemory.batchCapacity),
    (by decide +kernel : ∀ item ∈ [ascii "\x7b\x7d", ascii "\x7b\"seq\":1\x7d"], 0 ∉ item)⟩

/-- The receiver is busy so many times and then takes the batch. -/
def busy (times : Nat) : PostCall where
  malloc size := some (.zero size)
  curlInit := true
  respData := .zero 2048
  answer attempt := ⟨[ascii "busy"], .response (if attempt < times then 503 else 200)⟩

/-- A hundred attempts are allowed, and the third succeeds. -/
theorem http_post_batch_attempts_example :
    Attempted { sampleMemory with retryMaxAttempts := 99 } [ascii "\x7b\x7d", ascii "\x7b\"seq\":1\x7d"]
      (busy 2) :=
  (http_post_batch_attempts_iff (sampleMemory_holds 99) (by decide) (by decide +kernel) (fun _ => rfl)
    rfl).mpr (.inr ⟨2, by decide, .inl ⟨by decide +kernel, by decide +kernel⟩⟩)

/-- Thirty-three retries of a receiver that stays busy: the last pause is a shift by 32. -/
theorem last_pause_undefined :
    ¬ ∀ (m : OutputMemory) (items : List Bytes) (env : PostCall), Holds m items → items ≠ [] →
      0 ≤ m.retryMaxAttempts.toInt → (∀ size, (env.malloc size).isSome = true) → env.curlInit = true →
        Attempted m items env := by
  intro hall
  have hclaimed := hall _ _ (busy 34) (sampleMemory_holds 33) (by decide) (by decide +kernel) (fun _ => rfl) rfl
  obtain ⟨code, actions, m', k, hrun, hlast, -, hsleeps, -⟩ :=
    @httpPostBatch_attempts _ _ (sampleMemory_holds 33) (by decide) (by decide +kernel) (busy 34)
      (fun _ => rfl) rfl
  obtain ⟨code', actions', m'', k', hrun', hlast', -, hwaits, -⟩ := hclaimed
  rw [hrun] at hrun'
  cases hrun'
  obtain rfl := lastAttempt_unique hlast hlast'
  rw [hsleeps, pauses_defined_iff] at hwaits
  have hle : k ≤ 33 := by omega
  rcases (lastAttempt_le_iff hlast).mp hle with hfew | ⟨i, hi, hends⟩
  · exact absurd hfew (by decide +kernel)
  · have hbusy : (busy 34).answer i = ⟨[ascii "busy"], .response 503⟩ := by
      simp only [busy, if_pos (show i < 34 by omega)]
    rw [hbusy] at hends
    simp [Ends] at hends

end Syswatch.OutputRetries
