import Syswatch.EffectiveSettings
import Syswatch.PostedEvents

/-! # From the command line to the threads (`main`)

`main` exits with a code of its own for each thing that can fail before the threads
run. What it starts them with is in range, and so is what they then post. -/

namespace Syswatch.Startup
open Lib.CText Lib.Machine ConfigRange Process OutputDelivery OutputTriggers ProcessShutdown ProcessBatching
open PostedEvents

/-- `main` exits, or the collector thread has been created. -/
inductive Begun where
  | exits (code : Nat)
  | started (cfg : SyswatchConfig) (process : Process)

/-- `main` up to the first thread; `created` is the success of `pthread_create`. -/
def startup (posixlyCorrect : Bool) (argv : List Bytes) (files : Files) (init : InitEnv)
    (memory : Nat → EventQueueEntry) (clock : ℚ) (created : Bool) : Begun :=
  match mainSetup posixlyCorrect argv files with
  | .exits code => .exits code
  | .runs cfg =>
    let opened := outputInit Handed init (some cfg.view) (.zero Handed)
    if opened.1 ≠ 0 then .exits 4
    else if !created then .exits 5
    else .started cfg.view (.start memory clock opened.2.2)

theorem mainSetup_inRange {posixlyCorrect : Bool} {argv : List Bytes} {files : Files} {cfg : ConfigMemory}
    (h : mainSetup posixlyCorrect argv files = .runs cfg) : InRange cfg := by
  obtain ⟨args, text, hargs, hread, -, rfl⟩ := ConfigMetrics.mainSetup_runs h
  rw [← (ConfigText.load_eq hread args).1]
  exact (inRange_initDefaultConfig.parseArgs hargs).load files _

/-! ## What the output is opened with -/

/-- The limits of the posts. -/
structure Limits (o : OutputState Handed) (size retries : Int32) : Prop where
  size : o.batchSize = size
  retries : o.retryMaxAttempts = retries

theorem outputInit_limits {init : InitEnv} {cfg : SyswatchConfig} {g o : OutputState Handed}
    {err : Option Bytes} (h : outputInit Handed init (some cfg) g = (0, err, o)) :
    err = none ∧ Limits o (initialOutput Handed cfg).batchSize (initialOutput Handed cfg).retryMaxAttempts := by
  have hreset (u : OutputState Handed) : Limits (batchReset init.calloc u) u.batchSize u.retryMaxAttempts := by
    simp only [batchReset]
    split <;> exact ⟨rfl, rfl⟩
  simp only [outputInit] at h
  split at h
  · cases h
    exact ⟨rfl, rfl, rfl⟩
  · split at h
    · split at h
      · cases h
      · split at h
        · cases h
        · cases h
          exact ⟨rfl, rfl, rfl⟩
    · split at h
      · split at h
        · cases h
        · split at h
          · cases h
          · obtain ⟨-, h⟩ | ⟨-, h⟩ := ite_eq_iff.mp h
            · cases h
            · obtain ⟨-, h⟩ := Prod.mk.inj h
              obtain ⟨herr, hstate⟩ := Prod.mk.inj h
              exact ⟨herr.symm, hstate ▸ hreset _⟩
      · cases h

/-- What the threads are started with. -/
theorem startup_started {posixlyCorrect : Bool} {argv : List Bytes} {files : Files} {init : InitEnv}
    {memory : Nat → EventQueueEntry} {clock : ℚ} {created : Bool} {cfg : SyswatchConfig} {s₀ : Process}
    (h : startup posixlyCorrect argv files init memory clock created = .started cfg s₀) :
    ∃ config output, mainSetup posixlyCorrect argv files = .runs config ∧ cfg = config.view ∧
      outputInit Handed init (some cfg) (.zero Handed) = (0, none, output) ∧
      s₀ = .start memory clock output ∧ InRange config ∧
      Limits output (initialOutput Handed cfg).batchSize (initialOutput Handed cfg).retryMaxAttempts := by
  unfold startup at h
  cases hsetup : mainSetup posixlyCorrect argv files with
  | exits code =>
    rw [hsetup] at h
    cases h
  | runs config =>
    rw [hsetup] at h
    dsimp only at h
    split_ifs at h with hcode
    cases h
    rcases hopened : outputInit Handed init (some config.view) (.zero Handed) with ⟨code, err, output⟩
    rw [hopened] at hcode
    obtain rfl : code = 0 := not_not.mp hcode
    obtain ⟨rfl, hlimits⟩ := outputInit_limits hopened
    exact ⟨config, output, rfl, rfl, rfl, rfl, mainSetup_inRange hsetup, hlimits⟩

/-! ## What is posted -/

theorem attemptLoop_le (b : Int32) (outcome : Nat → HttpOutcome) (left attempt : Nat) :
    (attemptLoop b outcome left attempt).performed ≤ left := by
  induction left generalizing attempt with
  | zero => exact le_rfl
  | succ left ih =>
    rw [attemptLoop]
    cases verdict (outcome attempt) with
    | delivered => exact Nat.succ_pos left
    | refused => exact Nat.succ_pos left
    | retry => exact Nat.succ_le_succ (ih (attempt + 1))

/-- A post of a batch no longer than `size`, tried no more often than the retries say. -/
structure Limited (size retries : Int32) (p : Post Handed) : Prop where
  nonempty : p.batch ≠ []
  batch : (p.batch.length : Int) ≤ size.toInt
  attempts : (p.attempts.performed : Int) ≤ max 0 (retries.toInt + 1)

theorem posted_limited {o : OutputState Handed} {size retries : Int32} (h : Limits o size retries)
    (hne : o.batchItems ≠ []) (hfits : (o.batchCount : Int) ≤ o.batchSize.toInt) (env : PostEnv) :
    Limited size retries (posted Handed.text env o) where
  nonempty := hne
  batch := h.size ▸ hfits
  attempts := by
    have hle := attemptLoop_le o.retryBackoffSeconds env.outcome o.maxPosts 0
    have hmax : (o.maxPosts : Int) = max 0 (retries.toInt + 1) := by
      rw [OutputState.maxPosts, h.retries]
      omega
    rw [posted, ← hmax]
    exact Int.ofNat_le.mpr hle

theorem flushes_limited {env : EmitEnv} {o t : OutputState Handed} {posts : List (Post Handed)}
    {size retries : Int32} (h : Flushes Handed.text env o posts t) (hs : Steady o)
    (hl : Limits o size retries) : (∀ p ∈ posts, Limited size retries p) ∧ Limits t size retries := by
  cases h with
  | nothing => exact ⟨List.forall_mem_nil _, hl⟩
  | full hne hf => exact ⟨List.forall_mem_singleton.mpr (posted_limited hl hne hs.fits _), hl.size, hl.retries⟩
  | overdue hne ho => exact ⟨List.forall_mem_singleton.mpr (posted_limited hl hne hs.fits _), hl.size, hl.retries⟩

theorem emits_limited {env : EmitEnv} {o o' : OutputState Handed} {x : Handed} {posts : List (Post Handed)}
    {size retries : Int32} (h : Emits Handed.text env o x posts o') (hs : Steady o)
    (hl : Limits o size retries) : (∀ p ∈ posts, Limited size retries p) ∧ Limits o' size retries := by
  cases h with
  | gaveUp h => exact flushes_limited h hs hl
  | @noMemory _ t u h hfail hu =>
    obtain ⟨hposts, ht⟩ := flushes_limited h hs hl
    refine ⟨hposts, ?_⟩
    rcases hu with rfl | hu
    · rw [batchStartIfNeeded_eq]
      exact ⟨ht.size, ht.retries⟩
    · exact ⟨hu.size.trans ht.size, hu.retries.trans ht.retries⟩
  | waits h hu hroom =>
    obtain ⟨hposts, ht⟩ := flushes_limited h hs hl
    exact ⟨hposts, hu.size.trans ht.size, hu.retries.trans ht.retries⟩
  | @fills _ t u h hu hroom =>
    obtain ⟨hposts, ht⟩ := flushes_limited h hs hl
    have hu' : Limits { u with batchItems := u.batchItems ++ [x] } size retries :=
      ⟨hu.size.trans ht.size, hu.retries.trans ht.retries⟩
    have hadded := (((h.steady hs).room hu).added hu.items hu.size x (by omega)).fits
    refine ⟨?_, hu'.size, hu'.retries⟩
    rw [List.forall_mem_append, List.forall_mem_singleton]
    exact ⟨hposts, posted_limited hu' (by simp) hadded _⟩

/-- The invariant of a run. -/
structure Bounded (size retries : Int32) (s : Process) : Prop where
  steady : s.output.mode = .httpPost → Steady s.output ∧ Limits s.output size retries
  posts : ∀ r ∈ s.posts, Limited size retries r.post

theorem Bounded.call {size retries : Int32} {s s' : Process} (h : Bounded size retries s) {origin : Origin}
    {ageNow : Option Timespec} {effects : List (Effect Handed)}
    (hs : s'.output.mode = .httpPost → Steady s'.output ∧ Limits s'.output size retries)
    (hp : ∀ p ∈ postsOf effects, Limited size retries p) (hposts : s'.posts = s.note origin ageNow effects) :
    Bounded size retries s' := by
  refine ⟨hs, ?_⟩
  rw [hposts, note, List.forall_mem_append]
  refine ⟨h.posts, fun r hr => ?_⟩
  obtain ⟨p, hmem, rfl⟩ := List.mem_map.mp hr
  exact hp p hmem

theorem emit_bounded {size retries : Int32} {s : Process} (h : Bounded size retries s) (env : EmitEnv)
    (x : Handed) :
    (∀ p ∈ postsOf (outputEmitEvent Handed.text env s.output (some x)).2.1, Limited size retries p) ∧
      ((outputEmitEvent Handed.text env s.output (some x)).2.2.mode = .httpPost →
        Steady (outputEmitEvent Handed.text env s.output (some x)).2.2 ∧
          Limits (outputEmitEvent Handed.text env s.output (some x)).2.2 size retries) := by
  by_cases hmode : s.output.mode = .httpPost
  · obtain ⟨hs, hl⟩ := h.steady hmode
    obtain ⟨posts, o', he, hemits⟩ := outputEmitEvent_cases Handed.text env hs x
    obtain ⟨hposts, hl'⟩ := emits_limited hemits hs hl
    rw [he, postsOf_map]
    exact ⟨hposts, fun _ => ⟨hemits.steady hs, hl'⟩⟩
  · obtain ⟨hnone, hsame⟩ := outputEmitEvent_other env hmode x
    rw [hnone, hsame]
    exact ⟨List.forall_mem_nil _, fun hm => absurd hm hmode⟩

theorem flush_bounded {size retries : Int32} {s : Process} (h : Bounded size retries s) (env : PostEnv) :
    (∀ p ∈ postsOf (outputFlush Handed.text env s.output).2.1, Limited size retries p) ∧
      ((outputFlush Handed.text env s.output).2.2.mode = .httpPost →
        Steady (outputFlush Handed.text env s.output).2.2 ∧
          Limits (outputFlush Handed.text env s.output).2.2 size retries) := by
  by_cases hmode : s.output.mode = .httpPost
  · obtain ⟨hs, hl⟩ := h.steady hmode
    rw [outputFlush, if_pos hmode]
    by_cases hne : s.output.batchItems = []
    · rw [httpPostBatch_nil env hne]
      exact ⟨List.forall_mem_nil _, fun _ => ⟨hs, hl⟩⟩
    · rcases httpPostBatch_cases Handed.text env hne with he | he
      · rw [he]
        exact ⟨List.forall_mem_nil _, fun _ => ⟨hs, hl⟩⟩
      · rw [he]
        exact ⟨List.forall_mem_singleton.mpr (posted_limited hl hne hs.fits env),
          fun _ => ⟨hs.freed, hl.size, hl.retries⟩⟩
  · rw [outputFlush_other env hmode]
    exact ⟨List.forall_mem_nil _, fun hm => absurd hm hmode⟩

theorem step_bounded {cfg : SyswatchConfig} {size retries : Int32} {s s' : Process} {l : Label}
    (h : Bounded size retries s) (hm : Move cfg s l s') : Bounded size retries s' := by
  cases hm with
  | delivery hd =>
    cases hd with
    | emit event rest env now line hp hc hline =>
      obtain ⟨hposts, hs⟩ := emit_bounded h env line
      exact h.call hs hposts rfl
    | drained env hp =>
      obtain ⟨hposts, hs⟩ := flush_bounded h env
      exact h.call hs hposts rfl
    | final env hp =>
      obtain ⟨hposts, hs⟩ := flush_bounded h env
      exact h.call hs hposts rfl
    | _ => exact ⟨h.steady, h.posts⟩
  | main hc =>
    cases hc with
    | shutdown env hmain => exact h.call nofun (flush_bounded h env).1 rfl
    | failedShutdown env hmain => exact h.call nofun (flush_bounded h env).1 rfl
    | _ => exact ⟨h.steady, h.posts⟩
  | _ => exact ⟨h.steady, h.posts⟩

theorem start_bounded {init : InitEnv} {cfg : Option SyswatchConfig} {g output : OutputState Handed}
    (hinit : outputInit Handed init cfg g = (0, none, output)) (memory : Nat → EventQueueEntry) (clock : ℚ) :
    Bounded output.batchSize output.retryMaxAttempts (.start memory clock output) :=
  ⟨fun hm => ⟨(init_buffering hinit).steady hm, rfl, rfl⟩, List.forall_mem_nil _⟩

/-- **What a started program posts is bounded**: each batch has an event and at most
100000, `batch_size` of them or 50 without one, and is sent at most 101 times, once
and as often again as `retry_max_attempts` says; and the collector sleeps between 1
and 86400 seconds. -/
theorem started_bounded {posixlyCorrect : Bool} {argv : List Bytes} {files : Files} {init : InitEnv}
    {memory : Nat → EventQueueEntry} {clock : ℚ} {created : Bool} {cfg : SyswatchConfig} {s₀ s : Process}
    (h : startup posixlyCorrect argv files init memory clock created = .started cfg s₀)
    {labels : List Label} (hrun : run (step cfg) s₀ labels = some s) :
    (1 ≤ cfg.intervalSec.toInt ∧ cfg.intervalSec.toInt ≤ 86400) ∧
      ∀ r ∈ s.posts, r.post.batch ≠ [] ∧
        (r.post.batch.length : Int) ≤ (if 0 < cfg.outputBatchSize then cfg.outputBatchSize.toInt else 50) ∧
        r.post.batch.length ≤ 100000 ∧
        (r.post.attempts.performed : Int) ≤ cfg.outputRetryMaxAttempts.toInt + 1 ∧
        r.post.attempts.performed ≤ 101 := by
  obtain ⟨config, output, -, rfl, hinit, rfl, hrange, hlimits⟩ := startup_started h
  have h₀ : Bounded (initialOutput Handed config.view).batchSize
      (initialOutput Handed config.view).retryMaxAttempts (.start memory clock output) :=
    ⟨fun hm => ⟨(init_buffering hinit).steady hm, hlimits⟩, List.forall_mem_nil _⟩
  have hs := run_preserves hrun h₀ fun _ _ _ hb hstep => step_bounded hb (step_cases hstep)
  refine ⟨hrange.interval, fun r hr => ?_⟩
  obtain ⟨hne, hbatch, hattempts⟩ := hs.posts r hr
  have hsize : (initialOutput Handed config.view).batchSize.toInt =
      if 0 < config.view.outputBatchSize then config.view.outputBatchSize.toInt else 50 := by
    simp only [initialOutput, gt_iff_lt]
    split <;> rfl
  have hretries : (initialOutput Handed config.view).retryMaxAttempts = config.outputRetryMaxAttempts := by
    have hnonneg : config.outputRetryMaxAttempts ≥ 0 := Int32.le_iff_toInt_le.mpr hrange.retryMaxAttempts.1
    simp only [initialOutput, ConfigMemory.view]
    exact if_pos hnonneg
  have hrange' := hrange.retryMaxAttempts
  have hbig := hrange.batchSize
  rw [hsize] at hbatch
  rw [hretries] at hattempts
  change _ ∧ _ ∧ _ ∧ (r.post.attempts.performed : Int) ≤ config.outputRetryMaxAttempts.toInt + 1 ∧ _
  refine ⟨hne, hbatch, ?_, by omega, by omega⟩
  change (r.post.batch.length : Int) ≤ if 0 < config.outputBatchSize then config.outputBatchSize.toInt else 50
    at hbatch
  split at hbatch
  · rcases hbig with hzero | hbig
    · rw [hzero] at hbatch
      change (r.post.batch.length : Int) ≤ 0 at hbatch
      omega
    · omega
  · omega

def postArgv : List Bytes := [ascii "syswatch", ascii "--config", ascii "-"]

/-- Posts to a server, two events at a time. -/
def postFile : Files := ⟨ascii "output:\n  type: http_post\n  url: http://h/\n  batch_size: 2\n", fun _ => none⟩

theorem started_bounded_example :
    ∃ cfg s₀ s, startup false postArgv postFile ⟨true, none, none, true, true⟩ (fun _ => blankEntry) 0 true =
        .started cfg s₀ ∧ run (step cfg) s₀ measuredRun = some s ∧
      s.posts.map (fun r => r.post.batch.length) = [1, 2, 2, 2] ∧
      ∀ r ∈ s.posts, r.post.batch ≠ [] ∧ r.post.batch.length ≤ 100000 ∧ r.post.attempts.performed ≤ 101 := by
  have hruns : (match startup false postArgv postFile ⟨true, none, none, true, true⟩ (fun _ => blankEntry) 0 true with
      | .started cfg s₀ => (run (step cfg) s₀ measuredRun).map fun s => s.posts.map fun r => r.post.batch.length
      | .exits _ => none) = some [1, 2, 2, 2] := by
    decide +kernel
  cases h : startup false postArgv postFile ⟨true, none, none, true, true⟩ (fun _ => blankEntry) 0 true with
  | exits code => simp [h] at hruns
  | started cfg s₀ =>
    rw [h] at hruns
    obtain ⟨s, hs, hlen⟩ := Option.map_eq_some_iff.mp hruns
    refine ⟨cfg, s₀, s, rfl, hs, hlen, fun r hr => ?_⟩
    obtain ⟨hne, -, hsize, -, htries⟩ := (started_bounded h hs).2 r hr
    exact ⟨hne, hsize, htries⟩

end Syswatch.Startup
