import Syswatch.Output

/-! # What is posted of what is emitted

The calls between a successful `output_init` in `http_post` mode and
`output_shutdown`. Every emitted event is numbered by its place among the
emitted events, so that two equal lines are two events. -/

namespace Syswatch.OutputDelivery
open Lib.CText

variable {ι : Type} {text : ι → Bytes}

/-! ## One batch -/

theorem attemptLoop_performed (backoff : Int32) (outcome : Nat → HttpOutcome) {left : Nat}
    (attempt : Nat) (h : 0 < left) : 0 < (attemptLoop backoff outcome left attempt).performed := by
  cases left with
  | zero => cases h
  | succ left =>
    rw [attemptLoop]
    cases verdict (outcome attempt) with
    | delivered => exact Nat.one_pos
    | refused => exact Nat.one_pos
    | retry => exact Nat.succ_pos _

/-- The loop runs out when every attempt it may make is to be tried again. -/
theorem attemptLoop_last (backoff : Int32) (outcome : Nat → HttpOutcome) (left attempt : Nat) :
    (attemptLoop backoff outcome left attempt).last = .retry ↔
      ∀ i < left, verdict (outcome (attempt + i)) = .retry := by
  induction left generalizing attempt with
  | zero => simp [attemptLoop]
  | succ left ih =>
    rw [attemptLoop]
    constructor
    · intro h i hi
      cases hv : verdict (outcome attempt) with
      | delivered => rw [hv] at h; cases h
      | refused => rw [hv] at h; cases h
      | retry =>
        rw [hv] at h
        cases i with
        | zero => exact hv
        | succ i =>
          have := (ih (attempt + 1)).mp h i (Nat.lt_of_succ_lt_succ hi)
          rwa [Nat.add_assoc, Nat.add_comm 1 i] at this
    · intro h
      have h0 : verdict (outcome attempt) = .retry := h 0 (Nat.succ_pos left)
      rw [h0]
      refine (ih (attempt + 1)).mpr fun i hi => ?_
      have := h (i + 1) (Nat.succ_lt_succ hi)
      rwa [Nat.add_comm i 1, ← Nat.add_assoc] at this

/-- `malloc` and `curl_easy_init` succeed. -/
def Supplied (env : PostEnv) : Prop := env.malloc = true ∧ env.curlInit = true

/-- The post a batch becomes. -/
def posted (text : ι → Bytes) (env : PostEnv) (s : OutputState ι) : Post ι :=
  ⟨s.batchItems, postBody (s.batchItems.map text),
    attemptLoop s.retryBackoffSeconds env.outcome s.maxPosts 0⟩

/-- Every attempt `http_post_batch` may make is to be tried again. -/
def Exhausts (env : PostEnv) (s : OutputState ι) : Prop :=
  ∀ attempt < s.maxPosts, verdict (env.outcome attempt) = .retry

instance (env : PostEnv) (s : OutputState ι) : Decidable (Exhausts env s) :=
  inferInstanceAs (Decidable (∀ attempt < s.maxPosts, _))

theorem posted_last (text : ι → Bytes) (env : PostEnv) (s : OutputState ι) :
    (posted text env s).attempts.last = .retry ↔ Exhausts env s := by
  rw [posted, attemptLoop_last]
  simp only [Nat.zero_add, Exhausts]

theorem httpPostBatch_nil (env : PostEnv) {s : OutputState ι} (h : s.batchItems = []) :
    httpPostBatch text env s = (0, [], s) := if_pos (by simp [OutputState.batchCount, h])

/-- A batch is handed over once and the buffer is empty afterwards, whatever
the outcome. -/
theorem httpPostBatch_spec (text : ι → Bytes) {env : PostEnv} {s : OutputState ι} (henv : Supplied env)
    (h : s.batchItems ≠ []) :
    httpPostBatch text env s =
      (if Exhausts env s then -1 else 0, [.post (posted text env s)], freeBatchItems s) := by
  have hcount : ¬ s.batchCount = 0 := fun hc => h (List.length_eq_zero_iff.mp hc)
  rw [httpPostBatch, if_neg hcount, if_neg (by simp [henv.1]), if_neg (by simp [henv.2])]
  have hlast := posted_last text env s
  simp only [posted] at hlast ⊢
  cases hv : (attemptLoop s.retryBackoffSeconds env.outcome s.maxPosts 0).last with
  | delivered => rw [if_neg (fun he => by rw [hlast.mpr he] at hv; cases hv)]
  | refused => rw [if_neg (fun he => by rw [hlast.mpr he] at hv; cases hv)]
  | retry => rw [if_pos (hlast.mp hv)]

/-! ## The buffer between calls -/

/-- What `output_init` establishes and every call keeps. -/
structure Ready (s : OutputState ι) : Prop where
  mode : s.mode = .httpPost
  interval : 0 < s.batchIntervalSeconds.toInt
  retries : 0 ≤ s.retryMaxAttempts.toInt
  small : (s.batchCount : Int) < s.batchSize.toInt
  /-- The array `batch_items` has a place for every item. -/
  room : s.batchAllocated = true ∧ s.batchCount ≤ s.batchCapacity

theorem Ready.maxPosts_pos {s : OutputState ι} (h : Ready s) : 0 < s.maxPosts := by
  have := h.retries
  unfold OutputState.maxPosts
  omega

theorem Ready.size_pos {s : OutputState ι} (h : Ready s) : 0 < s.batchSize.toInt := by
  have := h.small
  omega

theorem Ready.freed {s : OutputState ι} (h : Ready s) : Ready (freeBatchItems s) :=
  ⟨h.mode, h.interval, h.retries, h.size_pos, h.room.1, Nat.zero_le _⟩

/-- A count below 2^31 compares as the C `int` it is cast to. -/
theorem ofNat_ge_iff {n : Nat} {b : Int32} (h : n < 2 ^ 31) :
    Int32.ofNat n ≥ b ↔ b.toInt ≤ n := by
  rw [ge_iff_le, Int32.le_iff_toInt_le, Int32.toInt_ofNat_of_lt h]

theorem size_lt (b : Int32) : b.toInt < 2 ^ 31 := Int32.toInt_lt b

theorem growCapacity_ge {needed : Nat} (turns capacity : Nat) (hpos : 0 < capacity)
    (h : needed ≤ capacity + turns) : needed ≤ growCapacity needed turns capacity := by
  induction turns generalizing capacity with
  | zero => exact h
  | succ turns ih =>
    rw [growCapacity]
    by_cases hlt : capacity < needed
    · rw [if_pos hlt]
      exact ih (capacity * 2) (by omega) (by omega)
    · rw [if_neg hlt]
      exact Nat.le_of_not_lt hlt

/-- With memory, the array has the places asked for and nothing else changes. -/
theorem batchEnsureCapacity_spec (needed : Nat) {s : OutputState ι}
    (h : s.batchAllocated = true) :
    ∃ capacity, needed ≤ capacity ∧
      batchEnsureCapacity true needed s = (0, { s with batchCapacity := capacity }) := by
  unfold batchEnsureCapacity
  by_cases hn : needed ≤ s.batchCapacity
  · exact ⟨s.batchCapacity, hn, if_pos hn⟩
  · refine ⟨_, growCapacity_ge needed (if s.batchCapacity = 0 then 16 else s.batchCapacity)
      (by split <;> omega) (by omega), ?_⟩
    rw [if_neg hn, ← h]
    simp [h]

/-! ## One call -/

/-- The system gives `output_emit_event` what it asks for. -/
def SuppliedEmit (env : EmitEnv) : Prop :=
  Supplied env.first ∧ env.realloc = true ∧ env.strdup = true ∧ Supplied env.second

/-- The batch in the buffer is overdue when the call begins. -/
def Overdue (now : Option Timespec) (s : OutputState ι) : Prop :=
  s.batchCount ≠ 0 ∧ s.batchStarted = true ∧
    (s.batchIntervalSeconds.toInt : ℚ) ≤ batchAgeSeconds now s

instance (now : Option Timespec) (s : OutputState ι) : Decidable (Overdue now s) :=
  inferInstanceAs (Decidable (_ ∧ _ ∧ _))

/-- An overdue batch whose every POST is to be tried again. -/
def Abandons (env : EmitEnv) (s : OutputState ι) : Prop :=
  Overdue env.ageNow s ∧ Exhausts env.first s

instance (env : EmitEnv) (s : OutputState ι) : Decidable (Abandons env s) :=
  inferInstanceAs (Decidable (_ ∧ _))

/-- A post of one to `batch_size` events, performed, with all of them in its body. -/
structure Proper (text : ι → Bytes) (size : Int32) (p : Post ι) : Prop where
  nonempty : 1 ≤ p.batch.length
  sized : (p.batch.length : Int) ≤ size.toInt
  performed : p.Performed
  body : p.body = postBody (p.batch.map text)

/-- What a call has done: the posts are proper, the batches and the buffer are
the earlier buffer and `added`. -/
structure Passes (text : ι → Bytes) (s : OutputState ι) (added : List ι) (posts : List (Post ι))
    (s' : OutputState ι) : Prop where
  ready : Ready s'
  size : s'.batchSize = s.batchSize
  proper : ∀ p ∈ posts, Proper text s.batchSize p
  exact : posts.flatMap Post.batch ++ s'.batchItems = s.batchItems ++ added

theorem posted_proper {env : PostEnv} {s : OutputState ι} (hmax : 0 < s.maxPosts)
    (hne : s.batchItems ≠ []) (hsize : (s.batchCount : Int) ≤ s.batchSize.toInt) :
    Proper text s.batchSize (posted text env s) where
  nonempty := List.length_pos_iff.mpr hne
  sized := hsize
  performed := attemptLoop_performed _ _ _ hmax
  body := rfl

theorem Passes.refl {s : OutputState ι} (h : Ready s) : Passes text s [] [] s :=
  ⟨h, rfl, fun _ hp => absurd hp List.not_mem_nil, by simp⟩

/-- The whole buffer is posted. -/
theorem Passes.post {env : PostEnv} {s : OutputState ι} (h : Ready s) (hne : s.batchItems ≠ []) :
    Passes text s [] [posted text env s] (freeBatchItems s) where
  ready := h.freed
  size := rfl
  proper p hp := by
    rw [List.mem_singleton.mp hp]
    exact posted_proper h.maxPosts_pos hne (Int.le_of_lt h.small)
  exact := by simp [posted, freeBatchItems]

theorem Passes.trans {s t u : OutputState ι} {a b : List ι} {p q : List (Post ι)}
    (h : Passes text s a p t) (h' : Passes text t b q u) :
    Passes text s (a ++ b) (p ++ q) u where
  ready := h'.ready
  size := h'.size.trans h.size
  proper r hr := by
    rcases List.mem_append.mp hr with hr | hr
    · exact h.proper r hr
    · exact h.size ▸ h'.proper r hr
  exact := by
    rw [List.flatMap_append, List.append_assoc, h'.exact, ← List.append_assoc, h.exact,
      List.append_assoc]

/-- The initial flush posts an overdue batch and nothing else. -/
theorem maybeFlushHttpBatch_spec {now : Option Timespec} {env : PostEnv} {s : OutputState ι}
    (h : Ready s) (henv : Supplied env) :
    maybeFlushHttpBatch text now env s =
      if Overdue now s then
        (if Exhausts env s then -1 else 0, [.post (posted text env s)], freeBatchItems s)
      else (0, [], s) := by
  have hsmall := h.small
  have hsize := size_lt s.batchSize
  unfold maybeFlushHttpBatch
  by_cases hcount : s.batchCount = 0
  · rw [if_pos hcount, if_neg fun ho => ho.1 hcount]
  · have hne : s.batchItems ≠ [] := fun hi => hcount (List.length_eq_zero_iff.mpr hi)
    have hfull : ¬ Int32.ofNat s.batchCount ≥ s.batchSize := by
      rw [ofNat_ge_iff (by omega)]
      omega
    have hpos : s.batchIntervalSeconds > 0 := by
      rw [gt_iff_lt, Int32.lt_iff_toInt_lt]
      exact h.interval
    rw [if_neg hcount, if_neg hfull]
    by_cases ho : Overdue now s
    · rw [if_pos ho, if_pos ⟨ho.2.1, hpos, ho.2.2⟩, httpPostBatch_spec text henv hne]
    · rw [if_neg ho, if_neg fun hc => ho ⟨hcount, hc.1, hc.2.2⟩]

/-- The initial flush fails exactly on an overdue batch that no attempt delivers. -/
theorem initialFlush_spec (text : ι → Bytes) {env : EmitEnv} {s : OutputState ι} (h : Ready s)
    (henv : SuppliedEmit env) :
    ∃ posts s', maybeFlushHttpBatch text env.ageNow env.first s =
        (if Abandons env s then -1 else 0, posts.map Effect.post, s') ∧
      Passes text s [] posts s' := by
  rw [maybeFlushHttpBatch_spec h henv.1]
  by_cases ho : Overdue env.ageNow s
  · have hne : s.batchItems ≠ [] := fun hi => ho.1 (List.length_eq_zero_iff.mpr hi)
    refine ⟨[posted text env.first s], freeBatchItems s, ?_, .post h hne⟩
    simp [Abandons, ho]
  · refine ⟨[], s, ?_, .refl h⟩
    simp [Abandons, ho]

theorem initialFlush_fails_iff (text : ι → Bytes) {env : EmitEnv} {s : OutputState ι} (h : Ready s)
    (henv : SuppliedEmit env) :
    (maybeFlushHttpBatch text env.ageNow env.first s).1 ≠ 0 ↔ Abandons env s := by
  obtain ⟨posts, s', he, _⟩ := initialFlush_spec text h henv
  rw [he]
  by_cases ha : Abandons env s
  · simp [ha]
  · simp [ha]

/-- `u` is `t` with a place for one more item and its clock started at `now`,
if it was not running. -/
structure MakesRoom (now : Option Timespec) (t u : OutputState ι) : Prop where
  mode : u.mode = t.mode
  interval : u.batchIntervalSeconds = t.batchIntervalSeconds
  retries : u.retryMaxAttempts = t.retryMaxAttempts
  size : u.batchSize = t.batchSize
  items : u.batchItems = t.batchItems
  room : u.batchAllocated = true ∧ t.batchCount + 1 ≤ u.batchCapacity
  started : u.batchStarted = (t.batchStarted || now.isSome)
  startedAt : u.batchStartedAt = if t.batchStarted then t.batchStartedAt else now.getD t.batchStartedAt

theorem batchStartIfNeeded_eq (now : Option Timespec) (t : OutputState ι) :
    batchStartIfNeeded now t = { t with
      batchStarted := t.batchStarted || now.isSome
      batchStartedAt := if t.batchStarted then t.batchStartedAt else now.getD t.batchStartedAt } := by
  cases t with
  | mk _ _ _ _ _ _ _ _ _ _ _ _ _ started _ => cases started <;> cases now <;> rfl

theorem makesRoom (now : Option Timespec) {t : OutputState ι} (h : t.batchAllocated = true) :
    ∃ u, batchEnsureCapacity true ((batchStartIfNeeded now t).batchCount + 1)
        (batchStartIfNeeded now t) = (0, u) ∧ MakesRoom now t u := by
  rw [batchStartIfNeeded_eq]
  obtain ⟨capacity, hcap, hroom⟩ := batchEnsureCapacity_spec (t.batchCount + 1)
    (s := { t with
      batchStarted := t.batchStarted || now.isSome
      batchStartedAt := if t.batchStarted then t.batchStartedAt else now.getD t.batchStartedAt }) h
  exact ⟨_, hroom, rfl, rfl, rfl, rfl, rfl, ⟨h, hcap⟩, rfl, rfl⟩

/-- The event waits in the buffer. -/
theorem MakesRoom.waits {now : Option Timespec} {t u : OutputState ι} (h : Ready t)
    (hu : MakesRoom now t u) {x : ι} (hlt : (t.batchCount + 1 : Nat) < t.batchSize.toInt) :
    Passes text t [x] [] { u with batchItems := u.batchItems ++ [x] } where
  ready :=
    { mode := hu.mode.trans h.mode
      interval := hu.interval ▸ h.interval
      retries := hu.retries ▸ h.retries
      small := by simpa [OutputState.batchCount, hu.size, hu.items] using hlt
      room := ⟨hu.room.1, by simpa [OutputState.batchCount, hu.items] using hu.room.2⟩ }
  size := hu.size
  proper _ hp := absurd hp List.not_mem_nil
  exact := by simp [hu.items]

/-- The event fills the batch, which goes out at once. -/
theorem MakesRoom.fills {now : Option Timespec} {t u : OutputState ι} (h : Ready t)
    (hu : MakesRoom now t u) (env : PostEnv) {x : ι} :
    Passes text t [x] [posted text env { u with batchItems := u.batchItems ++ [x] }]
      (freeBatchItems { u with batchItems := u.batchItems ++ [x] }) where
  ready :=
    { mode := hu.mode.trans h.mode
      interval := hu.interval ▸ h.interval
      retries := hu.retries ▸ h.retries
      small := hu.size ▸ h.size_pos
      room := ⟨hu.room.1, Nat.zero_le _⟩ }
  size := hu.size
  proper p hp := by
    have hmax : 0 < u.maxPosts := by
      have := h.maxPosts_pos
      rwa [OutputState.maxPosts, ← hu.retries] at this
    have hsmall := h.small
    rw [List.mem_singleton.mp hp, ← hu.size]
    refine posted_proper (s := { u with batchItems := u.batchItems ++ [x] }) hmax (by simp) ?_
    simp only [OutputState.batchCount, List.length_append, List.length_singleton, hu.items,
      hu.size] at hsmall ⊢
    omega
  exact := by simp [posted, freeBatchItems, hu.items]

/-- The event being emitted is given up with the batch that was overdue. -/
theorem outputEmitEvent_abandons (text : ι → Bytes) {env : EmitEnv} {s : OutputState ι} (h : Ready s)
    (henv : SuppliedEmit env) (ha : Abandons env s) (x : ι) :
    ∃ posts s', outputEmitEvent text env s (some x) = (-1, posts.map Effect.post, s') ∧
      Passes text s [] posts s' := by
  obtain ⟨posts, s', he, hp⟩ := initialFlush_spec text h henv
  refine ⟨posts, s', ?_, hp⟩
  simp only [outputEmitEvent, h.mode, he]
  rw [if_pos ha]
  rfl

/-- Otherwise it is in a batch of this call or in the buffer after it. -/
theorem outputEmitEvent_keeps (text : ι → Bytes) {env : EmitEnv} {s : OutputState ι} (h : Ready s)
    (henv : SuppliedEmit env) (ha : ¬ Abandons env s) (x : ι) :
    ∃ r posts s', outputEmitEvent text env s (some x) = (r, posts.map Effect.post, s') ∧
      Passes text s [x] posts s' := by
  obtain ⟨posts, t, he, hp⟩ := initialFlush_spec text h henv
  obtain ⟨u, hroom, hu⟩ := makesRoom env.startNow hp.ready.room.1
  have hsmall := hp.ready.small
  have hsize := size_lt t.batchSize
  have hcast := ofNat_ge_iff (b := t.batchSize) (n := t.batchCount + 1) (by omega)
  simp only [outputEmitEvent, h.mode, he]
  rw [if_neg ha, henv.2.1, hroom, henv.2.2.1]
  simp only [ne_eq, not_true_eq_false, if_false, Bool.not_true, Bool.false_eq_true,
    OutputState.batchCount, List.length_append, List.length_singleton, hu.items, hu.size]
  simp only [OutputState.batchCount] at hcast
  by_cases hfull : t.batchSize.toInt ≤ (t.batchCount + 1 : Nat)
  · have hpost := httpPostBatch_spec text henv.2.2.2
      (s := { u with batchItems := u.batchItems ++ [x] }) (by simp)
    have hall := hp.trans (hu.fills hp.ready env.second (x := x))
    rw [if_pos (hcast.mpr hfull), ← hu.size, ← hu.items, hpost]
    exact ⟨_, posts ++ [posted text env.second _], _, by rw [List.map_append]; rfl, hall⟩
  · have hall := hp.trans (hu.waits hp.ready (x := x) (by omega))
    rw [if_neg (mt hcast.mp hfull), ← hu.size, ← hu.items]
    rw [List.append_nil, List.nil_append] at hall
    exact ⟨_, posts, _, rfl, hall⟩

/-- A flush leaves the buffer empty. -/
theorem outputFlush_spec (text : ι → Bytes) {env : PostEnv} {s : OutputState ι} (h : Ready s) (henv : Supplied env) :
    ∃ r posts s', outputFlush text env s = (r, posts.map Effect.post, s') ∧
      Passes text s [] posts s' ∧ s'.batchItems = [] := by
  rw [outputFlush, if_pos h.mode]
  by_cases hne : s.batchItems = []
  · exact ⟨0, [], s, httpPostBatch_nil env hne, .refl h, hne⟩
  · exact ⟨_, [posted text env s], _, httpPostBatch_spec text henv hne, .post h hne, rfl⟩

/-! ## A sequence of calls -/

/-- A call between `output_init` and `output_shutdown`; the line `none` is `NULL`. -/
inductive OutputCall (ι : Type) where
  | emit (line : Option ι) (env : EmitEnv)
  | flush (env : PostEnv)

namespace OutputCall

def line : OutputCall ι → Option ι
  | .emit line _ => line
  | .flush _ => none

/-- Allocations and `curl_easy_init` succeed. -/
def Granted : OutputCall ι → Prop
  | .emit _ env => SuppliedEmit env
  | .flush env => Supplied env

def map {κ : Type} (f : ι → κ) : OutputCall ι → OutputCall κ
  | .emit line env => .emit (line.map f) env
  | .flush env => .flush env

end OutputCall

/-- An emitted event. `gaveUp` tells that its `output_emit_event` returned -1
from the initial `maybe_flush_http_batch`. -/
structure Emission (ι : Type) where
  line : ι
  gaveUp : Bool

/-- `g_output` with what the calls have done so far. -/
structure Delivery (ι : Type) where
  state : OutputState ι
  posts : List (Post ι)
  emitted : List (Emission ι)

namespace Delivery

def step (text : ι → Bytes) (d : Delivery ι) : OutputCall ι → Delivery ι
  | .emit line env =>
    let r := outputEmitEvent text env d.state line
    let gaveUp := (maybeFlushHttpBatch text env.ageNow env.first d.state).1 ≠ 0
    { state := r.2.2
      posts := d.posts ++ postsOf r.2.1
      emitted := d.emitted ++ (line.map fun x => ⟨x, gaveUp⟩).toList }
  | .flush env =>
    let r := outputFlush text env d.state
    { d with state := r.2.2, posts := d.posts ++ postsOf r.2.1 }

def run (text : ι → Bytes) (s : OutputState ι) (calls : List (OutputCall ι)) : Delivery ι :=
  calls.foldl (step text) ⟨s, [], []⟩

def shutdown (text : ι → Bytes) (env : PostEnv) (d : Delivery ι) : Delivery ι :=
  let r := outputShutdown text env d.state
  { d with state := r.2, posts := d.posts ++ postsOf r.1 }

/-- The emitted events without those whose call gave up. -/
def kept (d : Delivery ι) : List ι := (d.emitted.filter fun e => !e.gaveUp).map Emission.line

end Delivery

/-- What holds after every call. -/
structure Accounted (text : ι → Bytes) (size : Int32) (d : Delivery ι) : Prop where
  ready : Ready d.state
  sameSize : d.state.batchSize = size
  proper : ∀ p ∈ d.posts, Proper text size p
  exact : d.posts.flatMap Post.batch ++ d.state.batchItems = d.kept

theorem Accounted.passes {size : Int32} {d d' : Delivery ι} {added : List ι} {posts : List (Post ι)}
    (h : Accounted text size d) (hp : Passes text d.state added posts d'.state)
    (hposts : d'.posts = d.posts ++ posts) (hkept : d'.kept = d.kept ++ added) :
    Accounted text size d' where
  ready := hp.ready
  sameSize := hp.size.trans h.sameSize
  proper p hmem := by
    rw [hposts] at hmem
    rcases List.mem_append.mp hmem with hm | hm
    · exact h.proper p hm
    · exact h.sameSize ▸ hp.proper p hm
  exact := by
    rw [hposts, hkept, ← h.exact, List.flatMap_append, List.append_assoc, hp.exact,
      List.append_assoc]

theorem step_accounted {size : Int32} {d : Delivery ι} (h : Accounted text size d)
    (c : OutputCall ι) (hc : c.Granted) : Accounted text size (d.step text c) := by
  cases c with
  | emit line env =>
    cases line with
    | none => exact h.passes (.refl h.ready) rfl (by simp [Delivery.step, Delivery.kept])
    | some x =>
      have hflag := initialFlush_fails_iff text h.ready hc
      by_cases ha : Abandons env d.state
      · obtain ⟨posts, s', he, hp⟩ := outputEmitEvent_abandons text h.ready hc ha x
        refine h.passes (by simpa only [Delivery.step, he] using hp)
          (by simp [Delivery.step, he]) ?_
        simp [Delivery.step, Delivery.kept, hflag.mpr ha]
      · obtain ⟨r, posts, s', he, hp⟩ := outputEmitEvent_keeps text h.ready hc ha x
        refine h.passes (by simpa only [Delivery.step, he] using hp)
          (by simp [Delivery.step, he]) ?_
        simp [Delivery.step, Delivery.kept, not_not.mp (mt hflag.mp ha)]
  | flush env =>
    obtain ⟨r, posts, s', he, hp, _⟩ := outputFlush_spec text h.ready hc
    refine h.passes (by simpa only [Delivery.step, he] using hp) (by simp [Delivery.step, he]) ?_
    simp [Delivery.step, Delivery.kept]

theorem start_accounted {s : OutputState ι} (h : Ready s) (hb : s.batchItems = []) :
    Accounted text s.batchSize ⟨s, [], []⟩ where
  ready := h
  sameSize := rfl
  proper _ hp := absurd hp List.not_mem_nil
  exact := by simp [hb, Delivery.kept]

theorem run_snoc (s : OutputState ι) (calls : List (OutputCall ι)) (c : OutputCall ι) :
    Delivery.run text s (calls ++ [c]) = (Delivery.run text s calls).step text c := by
  rw [Delivery.run, List.foldl_append]
  rfl

theorem run_accounted (text : ι → Bytes) {s : OutputState ι} (h : Ready s) (hb : s.batchItems = [])
    {calls : List (OutputCall ι)} (hc : ∀ c ∈ calls, c.Granted) :
    Accounted text s.batchSize (Delivery.run text s calls) := by
  induction calls using List.reverseRecOn with
  | nil => exact start_accounted h hb
  | append_singleton calls c ih =>
    rw [run_snoc]
    exact step_accounted (ih fun c' h' => hc c' (List.mem_append_left _ h')) c
      (hc c (List.mem_append_right _ (List.mem_singleton_self c)))

/-- Everything kept is in a batch by the end. -/
theorem shutdown_exact {size : Int32} {d : Delivery ι} (h : Accounted text size d) {env : PostEnv}
    (henv : Supplied env) :
    ((d.shutdown text env).posts.flatMap Post.batch = d.kept) ∧
      ∀ p ∈ (d.shutdown text env).posts, Proper text size p := by
  obtain ⟨r, posts, s', he, hp, hempty⟩ := outputFlush_spec text h.ready henv
  have hposts : (d.shutdown text env).posts = d.posts ++ posts := by
    simp [Delivery.shutdown, outputShutdown, he]
  rw [hposts]
  constructor
  · have hexact := hp.exact
    rw [hempty, List.append_nil, List.append_nil] at hexact
    rw [List.flatMap_append, hexact, h.exact]
  · intro p hmem
    rcases List.mem_append.mp hmem with hm | hm
    · exact h.proper p hm
    · exact h.sameSize ▸ hp.proper p hm

/-! ## The events of a sequence of calls -/

/-- Every line with the number of its call. -/
def numbered (calls : List (OutputCall Bytes)) : List (OutputCall (Bytes × Nat)) :=
  calls.zipIdx.map fun c => c.1.map (·, c.2)

theorem emitted_lines (text : ι → Bytes) (s : OutputState ι) (calls : List (OutputCall ι)) :
    (Delivery.run text s calls).emitted.map Emission.line = calls.filterMap OutputCall.line := by
  induction calls using List.reverseRecOn with
  | nil => rfl
  | append_singleton calls c ih =>
    rw [run_snoc, List.filterMap_append, ← ih]
    cases c with
    | emit line env => cases line <;> simp [Delivery.step, OutputCall.line]
    | flush env => simp [Delivery.step, OutputCall.line]

/-! ## After `output_init` -/

theorem initialOutput_settings (cfg : SyswatchConfig) :
    0 < (initialOutput ι cfg).batchSize.toInt ∧
      0 < (initialOutput ι cfg).batchIntervalSeconds.toInt ∧
      0 ≤ (initialOutput ι cfg).retryMaxAttempts.toInt := by
  refine ⟨?_, ?_, ?_⟩ <;> simp only [initialOutput]
  · by_cases h : cfg.outputBatchSize > 0
    · rw [if_pos h]
      exact Int32.lt_iff_toInt_lt.mp h
    · rw [if_neg h]
      decide
  · by_cases h : cfg.outputBatchIntervalSeconds > 0
    · rw [if_pos h]
      exact Int32.lt_iff_toInt_lt.mp h
    · rw [if_neg h]
      decide
  · by_cases h : cfg.outputRetryMaxAttempts ≥ 0
    · rw [if_pos h]
      exact Int32.le_iff_toInt_le.mp h
    · rw [if_neg h]
      decide

/-- A successful `output_init` in `http_post` mode ends with `batch_reset`. -/
theorem outputInit_httpPost {env : InitEnv} {cfg : Option SyswatchConfig} {g s : OutputState ι}
    (h : outputInit ι env cfg g = (0, none, s)) (hm : s.mode = .httpPost) :
    ∃ (cfg' : SyswatchConfig) (url auth : CString 256), s = { initialOutput ι cfg' with
      mode := .httpPost, curlReady := true, outputUrl := url, authHeader := auth
      batchItems := [], batchStarted := false, batchCapacity := 16, batchAllocated := true } := by
  cases cfg with
  | none => cases h
  | some cfg =>
    simp only [outputInit] at h
    split at h
    · cases h; cases hm
    · split at h
      · split at h
        · cases h
        · split at h
          · cases h
          · cases h; cases hm
      · split at h
        · split at h
          · cases h
          · split at h
            · cases h
            · have hreset (u : OutputState ι) (hu : u.batchCapacity = 0) :
                  batchReset env.calloc u = { u with
                    batchItems := [], batchStarted := false, batchCapacity := 16
                    batchAllocated := env.calloc } := if_pos hu
              rw [hreset _ rfl] at h
              cases hcalloc : env.calloc with
              | false => rw [hcalloc] at h; cases h
              | true =>
                rw [hcalloc] at h
                cases h
                exact ⟨cfg, _, _, rfl⟩
        · cases h

/-- A successful `output_init` in `http_post` mode leaves an empty buffer. -/
theorem outputInit_ready {env : InitEnv} {cfg : Option SyswatchConfig} {g s : OutputState ι}
    (h : outputInit ι env cfg g = (0, none, s)) (hm : s.mode = .httpPost) :
    Ready s ∧ s.batchItems = [] ∧ s.batchStarted = false := by
  obtain ⟨cfg', url, auth, rfl⟩ := outputInit_httpPost h hm
  obtain ⟨hsize, hinterval, hretries⟩ := initialOutput_settings (ι := ι) cfg'
  exact ⟨⟨rfl, hinterval, hretries, hsize, rfl, Nat.zero_le _⟩, rfl, rfl⟩

theorem numbered_granted {calls : List (OutputCall Bytes)} (h : ∀ c ∈ calls, c.Granted) :
    ∀ c ∈ numbered calls, c.Granted := by
  intro c hc
  obtain ⟨⟨c', k⟩, hmem, rfl⟩ := List.mem_map.mp hc
  have hgranted := h c' (List.fst_mem_of_mem_zipIdx hmem)
  cases c' <;> exact hgranted

/-- No two lines have one number. -/
theorem numbered_nodup (calls : List (OutputCall Bytes)) :
    ((numbered calls).filterMap OutputCall.line).Nodup := by
  have hsnd : (((numbered calls).filterMap OutputCall.line).map Prod.snd).Sublist
      (calls.zipIdx.map Prod.snd) := by
    rw [numbered, List.filterMap_map, List.map_filterMap]
    induction calls.zipIdx with
    | nil => exact .slnil
    | cons c cs ih =>
      obtain ⟨c, k⟩ := c
      cases c with
      | emit line env =>
        cases line with
        | none => exact ih.cons _
        | some x => exact ih.cons_cons _
      | flush env => exact ih.cons _
  refine List.Nodup.of_map Prod.snd (hsnd.nodup ?_)
  rw [List.zipIdx_map_snd]
  exact List.nodup_range'

theorem kept_sublist (d : Delivery ι) : d.kept.Sublist (d.emitted.map Emission.line) :=
  List.filter_sublist.map _

/-! ## The batches -/

/-- The `output` section of `syswatch.example.yaml`, with `type: http_post`. -/
def httpConfig : SyswatchConfig :=
  { initDefaultConfig with
    outputType := CString.ofBytes 16 (ascii "http_post")
    outputUrl := CString.ofBytes 256 (ascii "http://127.0.0.1:8765/events")
    outputBatchSize := 50
    outputBatchIntervalSeconds := 2
    outputRetryMaxAttempts := 5
    outputRetryBackoffSeconds := 1 }

def answering (outcome : HttpOutcome) : PostEnv := ⟨true, true, fun _ => outcome⟩

/-- A call of `output_emit_event` at a time, with the outcome of its first flush. -/
def emitAt (line : Bytes) (seconds : Int) (outcome : HttpOutcome) : OutputCall Bytes :=
  .emit (some line) ⟨some ⟨seconds, 0⟩, answering outcome, some ⟨seconds, 0⟩, true, true,
    answering outcome⟩

/-- `output_init` with these settings. -/
def httpStart (ι : Type) (cfg : SyswatchConfig) : OutputState ι :=
  (outputInit _ ⟨true, none, none, true, true⟩ (some cfg) (.zero _)).2.2

theorem emitAt_granted (lines : List (Bytes × Int × HttpOutcome)) :
    ∀ c ∈ lines.map fun l => emitAt l.1 l.2.1 l.2.2, c.Granted := by
  intro c hc
  obtain ⟨l, -, rfl⟩ := List.mem_map.mp hc
  exact ⟨⟨rfl, rfl⟩, rfl, rfl, rfl, rfl⟩

/-- **Batches.** After any calls every batch posted holds between one event and
`batch_size`, the buffer less than that, no event is in two batches, and the
batches and the buffer are the emitted events in order without those whose
`output_emit_event` returned -1 from its initial flush. -/
theorem batches_exact {init : InitEnv} {cfg : Option SyswatchConfig}
    {g s : OutputState (Bytes × Nat)} (hinit : outputInit _ init cfg g = (0, none, s))
    (hmode : s.mode = .httpPost) {calls : List (OutputCall Bytes)} (hcalls : ∀ c ∈ calls, c.Granted) :
    let d := Delivery.run Prod.fst s (numbered calls)
    (∀ p ∈ d.posts, 1 ≤ p.batch.length ∧ (p.batch.length : Int) ≤ s.batchSize.toInt) ∧
      (d.state.batchCount : Int) < s.batchSize.toInt ∧
      d.posts.Pairwise (fun p q => p.batch.Disjoint q.batch) ∧
      d.emitted.map Emission.line = (numbered calls).filterMap OutputCall.line ∧
      d.posts.flatMap Post.batch ++ d.state.batchItems = d.kept := by
  intro d
  obtain ⟨hready, hempty, -⟩ := outputInit_ready hinit hmode
  have hacc := run_accounted Prod.fst hready hempty (numbered_granted hcalls)
  have hlines := emitted_lines Prod.fst s (numbered calls)
  refine ⟨fun p hp => ⟨(hacc.proper p hp).nonempty, (hacc.proper p hp).sized⟩, ?_, ?_, hlines,
    hacc.exact⟩
  · exact hacc.sameSize ▸ hacc.ready.small
  · have hnodup : d.kept.Nodup := (kept_sublist d).nodup (hlines ▸ numbered_nodup calls)
    rw [← hacc.exact] at hnodup
    exact (List.nodup_flatMap.mp hnodup.of_append_left).2

/-- Three events and a `batch_size` of two. -/
theorem batches_exact_example :
    let lines := [(ascii "\x7b\"seq\":1\x7d", (0 : Int), HttpOutcome.response 200),
      (ascii "\x7b\"seq\":2\x7d", 1, .response 503), (ascii "\x7b\"seq\":3\x7d", 1, .response 200)]
    let s := httpStart _ { httpConfig with outputBatchSize := 2 }
    let d := Delivery.run Prod.fst s (numbered (lines.map fun l => emitAt l.1 l.2.1 l.2.2))
    d.posts.map (fun p => p.batch.map Prod.snd) = [[0, 1]] ∧
      d.posts.flatMap Post.batch ++ d.state.batchItems = d.kept := by
  refine ⟨by decide +kernel, ?_⟩
  obtain ⟨-, -, -, -, h⟩ := @batches_exact ⟨true, none, none, true, true⟩
    (some { httpConfig with outputBatchSize := 2 }) (.zero _) _ rfl rfl _ (emitAt_granted _)
  exact h

/-! ## The events that no POST carries -/

/-- The event is in the body of a POST that was performed. -/
def Carried (d : Delivery (Bytes × Nat)) (e : Bytes × Nat) : Prop :=
  ∃ p ∈ d.posts, p.Performed ∧ e ∈ p.batch ∧ e.1 <:+: p.body

theorem mem_intersperse {α : Type} {x : α} (sep : α) : ∀ {l : List α}, x ∈ l → x ∈ l.intersperse sep
  | [_], h => h
  | a :: b :: l, h => by
    rw [List.intersperse_cons_cons]
    rcases List.mem_cons.mp h with rfl | h
    · exact List.mem_cons_self
    · exact List.mem_cons_of_mem _ (List.mem_cons_of_mem _ (mem_intersperse sep h))

theorem infix_postBody {texts : List Bytes} {x : Bytes} (h : x ∈ texts) : x <:+: postBody texts :=
  (List.infix_of_mem_flatten (mem_intersperse [44] h)).trans ⟨[91], [93], rfl⟩

/-- No call gave up when none met an overdue batch that it could not deliver. -/
theorem gaveUp_iff {s : OutputState ι} (h : Ready s) (hb : s.batchItems = [])
    {calls : List (OutputCall ι)} (hc : ∀ c ∈ calls, c.Granted) :
    (∀ e ∈ (Delivery.run text s calls).emitted, e.gaveUp = false) ↔
      ∀ before x env after, calls = before ++ .emit (some x) env :: after →
        ¬ Abandons env (Delivery.run text s before).state := by
  induction calls using List.reverseRecOn with
  | nil => simp [Delivery.run]
  | append_singleton calls c ih =>
    have hcalls : ∀ c ∈ calls, c.Granted := fun c' h' => hc c' (List.mem_append_left _ h')
    have hready := (run_accounted text h hb hcalls).ready
    have hlast := hc c (List.mem_append_right _ (List.mem_singleton_self c))
    have hsplit : (∀ before x env after, calls ++ [c] = before ++ .emit (some x) env :: after →
        ¬ Abandons env (Delivery.run text s before).state) ↔
        (∀ before x env after, calls = before ++ .emit (some x) env :: after →
          ¬ Abandons env (Delivery.run text s before).state) ∧
        ∀ x env, c = .emit (some x) env → ¬ Abandons env (Delivery.run text s calls).state := by
      constructor
      · intro hall
        refine ⟨fun before x env after he => hall before x env (after ++ [c]) (by simp [he]), ?_⟩
        rintro x env rfl
        exact hall calls x env [] rfl
      · rintro ⟨hold, hnew⟩ before x env after he
        rcases List.eq_nil_or_concat after with rfl | ⟨after, c', rfl⟩
        · obtain ⟨rfl, hc'⟩ := List.append_inj' he rfl
          exact hnew x env (List.singleton_inj.mp hc')
        · rw [List.concat_eq_append, ← List.cons_append, ← List.append_assoc] at he
          exact hold before x env after (List.append_inj' he rfl).1
    rw [hsplit, ← ih hcalls, run_snoc]
    cases c with
    | flush env => simp [Delivery.step]
    | emit line env =>
      cases line with
      | none => simp [Delivery.step]
      | some x =>
        have hflag := initialFlush_fails_iff text hready hlast
        simp only [Delivery.step, Option.map_some, Option.toList_some, List.mem_append,
          List.mem_singleton, or_imp, forall_and, forall_eq, decide_eq_false_iff_not, hflag]
        refine and_congr_right fun _ => ⟨?_, fun hnew => hnew x env rfl⟩
        intro hna x' env' he
        cases he
        exact hna

theorem carried_iff {size : Int32} {d : Delivery (Bytes × Nat)} (h : Accounted Prod.fst size d)
    {env : PostEnv} (henv : Supplied env) (e : Bytes × Nat) :
    Carried (d.shutdown Prod.fst env) e ↔ e ∈ d.kept := by
  obtain ⟨hexact, hproper⟩ := shutdown_exact h henv
  rw [← hexact]
  constructor
  · rintro ⟨p, hp, -, he, -⟩
    exact List.mem_flatMap.mpr ⟨p, hp, he⟩
  · intro he
    obtain ⟨p, hp, he⟩ := List.mem_flatMap.mp he
    refine ⟨p, hp, (hproper p hp).performed, he, ?_⟩
    rw [(hproper p hp).body]
    exact infix_postBody (List.mem_map_of_mem he)

/-- Distinct events are all kept exactly when no call gave up. -/
theorem kept_all_iff {d : Delivery ι} (h : (d.emitted.map Emission.line).Nodup) :
    (∀ e ∈ d.emitted.map Emission.line, e ∈ d.kept) ↔ ∀ e ∈ d.emitted, e.gaveUp = false := by
  constructor
  · intro hall
    have hle := (List.subperm_of_subset h hall).length_le
    have hlen : (d.emitted.filter fun e => !e.gaveUp).length = d.emitted.length := by
      rw [Delivery.kept, List.length_map, List.length_map] at hle
      exact Nat.le_antisymm (List.length_filter_le _ _) hle
    intro e he
    simpa using List.length_filter_eq_length_iff.mp hlen e he
  · intro hnone e he
    rw [Delivery.kept, List.filter_eq_self.mpr fun a ha => by simp [hnone a ha]]
    exact he

/-- **Every event is posted** when the run has ended, if and only if no
`output_emit_event` began with an overdue batch that it could not deliver. -/
theorem every_event_posted_iff {init : InitEnv} {cfg : Option SyswatchConfig}
    {g s : OutputState (Bytes × Nat)} (hinit : outputInit _ init cfg g = (0, none, s))
    (hmode : s.mode = .httpPost) {calls : List (OutputCall Bytes)} (hcalls : ∀ c ∈ calls, c.Granted)
    {last : PostEnv} (hlast : Supplied last) :
    (∀ e ∈ (numbered calls).filterMap OutputCall.line,
      Carried ((Delivery.run Prod.fst s (numbered calls)).shutdown Prod.fst last) e) ↔
    ∀ before x env after, numbered calls = before ++ .emit (some x) env :: after →
      ¬ Abandons env (Delivery.run Prod.fst s before).state := by
  obtain ⟨hready, hempty, -⟩ := outputInit_ready hinit hmode
  have hgranted := numbered_granted hcalls
  have hacc := run_accounted Prod.fst hready hempty hgranted
  have hlines := emitted_lines Prod.fst s (numbered calls)
  rw [← gaveUp_iff hready hempty hgranted, ← kept_all_iff (hlines ▸ numbered_nodup calls), hlines]
  simp only [carried_iff hacc hlast]

/-- One event waits for three seconds while the receiver goes away; the second
event is then lost although the receiver is back for the last flush. -/
theorem event_lost_with_batch :
    let first := ascii "\x7b\"seq\":1\x7d"
    let second := ascii "\x7b\"seq\":2\x7d"
    let calls := numbered [emitAt first 0 (.response 200), emitAt second 3 .transportError]
    let d := (Delivery.run Prod.fst (httpStart _ httpConfig) calls).shutdown Prod.fst
      (answering (.response 200))
    outputInit _ ⟨true, none, none, true, true⟩ (some httpConfig) (.zero (Bytes × Nat)) =
        (0, none, httpStart _ httpConfig) ∧
      (httpStart (Bytes × Nat) httpConfig).mode = .httpPost ∧ (∀ c ∈ calls, c.Granted) ∧
      Supplied (answering (.response 200)) ∧
      (second, 1) ∈ calls.filterMap OutputCall.line ∧
      d.posts.map Post.body = [postBody [first]] ∧
      ∀ p ∈ d.posts, (second, 1) ∉ p.batch ∧ ¬ second <:+: p.body := by
  exact ⟨rfl, rfl, numbered_granted (emitAt_granted
    [(_, 0, .response 200), (_, 3, .transportError)]), ⟨rfl, rfl⟩, by decide +kernel,
    by decide +kernel, by decide +kernel⟩

theorem every_event_posted_iff_example :
    Carried ((Delivery.run Prod.fst (httpStart _ httpConfig)
      (numbered [emitAt (ascii "\x7b\"seq\":1\x7d") 0 (.response 200)])).shutdown Prod.fst
        (answering (.response 200))) (ascii "\x7b\"seq\":1\x7d", 0) := by
  refine (@every_event_posted_iff ⟨true, none, none, true, true⟩ (some httpConfig)
    (.zero _) _ rfl rfl _ (emitAt_granted [(_, 0, .response 200)]) _ ⟨rfl, rfl⟩).mpr ?_ _
    (by decide +kernel)
  intro before x env after h
  cases before with
  | nil => exact fun ha => ha.1.1 rfl
  | cons c before => simp [numbered] at h

end Syswatch.OutputDelivery
