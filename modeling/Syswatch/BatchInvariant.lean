import Syswatch.OutputRefinement

/-! # What the batch buffer keeps

The relation between the count, the capacity and the places of the array, over
every run after `output_init`, whatever fails. The array is doubled only when the
batch, which `batch_size` limits, fills it: `size_t` has room to spare. -/

namespace Syswatch.BatchInvariant
open Lib.CText Lib.Machine OutputMemory OutputDelivery OutputTriggers OutputRefinement

/-! ## Doubling -/

/-- `while (new_capacity < needed) new_capacity *= 2` on a `size_t`; `none` when
the loop is not over after so many turns. -/
def growSize (needed : UInt64) : Nat → UInt64 → Option UInt64
  | 0, _ => none
  | turns + 1, capacity =>
    if capacity < needed then growSize needed turns (capacity * 2) else some capacity

/-- What an array of pointers takes. -/
def arrayBytes (capacity : Nat) : Nat := 8 * capacity

variable {needed capacity : Nat}

/-- One doubling is enough where the array is full. -/
theorem growCapacity_double (h : capacity + 1 = needed) (hpos : 0 < capacity) :
    growCapacity needed needed capacity = capacity * 2 := by
  obtain ⟨k, rfl⟩ : ∃ k, capacity = k + 1 := ⟨capacity - 1, by omega⟩
  rw [← h, growCapacity, if_pos (by omega), growCapacity, if_neg (by omega)]

/-- The loop ends, on numbers that do not wrap. -/
theorem growSize_double (h : capacity + 1 = needed) (hpos : 0 < capacity) (hsmall : capacity < 2 ^ 32) :
    growSize (UInt64.ofNat needed) 2 (UInt64.ofNat capacity) = some (UInt64.ofNat (capacity * 2)) := by
  have hsize : UInt64.size = 2 ^ 64 := rfl
  have hneeded : (UInt64.ofNat needed).toNat = needed := UInt64.toNat_ofNat_of_lt' (by omega)
  have hcapacity : (UInt64.ofNat capacity).toNat = capacity := UInt64.toNat_ofNat_of_lt' (by omega)
  have htwice : UInt64.ofNat capacity * 2 = UInt64.ofNat (capacity * 2) := UInt64.ofNat_mul .. |>.symm
  have hgrown : (UInt64.ofNat (capacity * 2)).toNat = capacity * 2 := UInt64.toNat_ofNat_of_lt' (by omega)
  rw [growSize, if_pos (UInt64.lt_iff_toNat_lt.mpr (by omega)), htwice, growSize,
    if_neg (by rw [UInt64.lt_iff_toNat_lt]; omega)]

/-! ## The list of the strings -/

variable {ι : Type} {text : ι → Bytes} {s t : OutputState ι}

/-- The batch is within `batch_size`, and the array has been doubled from 16
places so far that it could hold one event more than a full batch. -/
structure Sized (s : OutputState ι) : Prop where
  steady : Steady s
  power : ∃ k, s.batchCapacity = 16 * 2 ^ k
  small : s.batchCapacity < 2 ^ 32
  room : s.batchCount ≤ s.batchCapacity

/-- A batch that is not empty has a start. -/
def Timed (s : OutputState ι) : Prop := s.batchItems ≠ [] → s.batchStarted = true

theorem Sized.pos (h : Sized s) : 0 < s.batchCapacity := by
  obtain ⟨k, hk⟩ := h.power
  rw [hk]
  positivity

theorem Sized.freed (h : Sized s) : Sized (freeBatchItems s) := 
  ⟨h.steady.freed, h.power, h.small, Nat.zero_le _⟩

theorem Sized.started (h : Sized s) (now : Option Timespec) : Sized (batchStartIfNeeded now s) := by
  have hsteady := h.steady.started now
  rw [batchStartIfNeeded_eq] at hsteady ⊢
  exact ⟨hsteady, h.power, h.small, h.room⟩

theorem timed_freed (s : OutputState ι) : Timed (freeBatchItems s) := fun hne => absurd rfl hne

theorem timed_started (s : OutputState ι) {now : Option Timespec} (hnow : now ≠ none) :
    (batchStartIfNeeded now s).batchStarted = true := by
  rw [batchStartIfNeeded_eq]
  simp [Option.isSome_iff_ne_none.mpr hnow]

/-- The array has room for one more, is doubled, or stays as it is. -/
theorem ensureOne_cases (h : Sized t) (realloc : Bool) :
    (t.batchCount + 1 ≤ t.batchCapacity ∧ batchEnsureCapacity realloc (t.batchCount + 1) t = (0, t)) ∨
      batchEnsureCapacity realloc (t.batchCount + 1) t = (-1, t) ∨
      t.batchCapacity = t.batchCount ∧ batchEnsureCapacity realloc (t.batchCount + 1) t =
        (0, { t with batchAllocated := true, batchCapacity := t.batchCapacity * 2 }) := by
  have hpos := h.pos
  have hroom := h.room
  unfold batchEnsureCapacity
  by_cases hfits : t.batchCount + 1 ≤ t.batchCapacity
  · exact .inl ⟨hfits, if_pos hfits⟩
  rw [if_neg hfits, if_neg hpos.ne', growCapacity_double (by omega) hpos]
  cases realloc with
  | false => exact .inr (.inl rfl)
  | true => exact .inr (.inr ⟨by omega, rfl⟩)

/-- Making room keeps what is known, and gives the room it reports. -/
theorem Sized.ensureOne (h : Sized t) (hlt : (t.batchCount : Int) < t.batchSize.toInt) (realloc : Bool) :
    ∃ code u, batchEnsureCapacity realloc (t.batchCount + 1) t = (code, u) ∧ Sized u ∧
      u.batchItems = t.batchItems ∧ u.batchSize = t.batchSize ∧ u.batchStarted = t.batchStarted ∧
      (code = 0 → t.batchCount + 1 ≤ u.batchCapacity) := by
  have hsize := size_lt t.batchSize
  rcases ensureOne_cases h realloc with ⟨hfits, he⟩ | he | ⟨hfull, he⟩
  · exact ⟨0, t, he, h, rfl, rfl, rfl, fun _ => hfits⟩
  · exact ⟨-1, t, he, h, rfl, rfl, rfl, fun h0 => absurd h0 (by decide)⟩
  · refine ⟨0, _, he, ⟨?_, ?_, ?_, ?_⟩, rfl, rfl, rfl, fun _ => ?_⟩
    · exact ⟨h.steady.mode, h.steady.interval, h.steady.size, h.steady.fits, rfl⟩
    · obtain ⟨k, hk⟩ := h.power
      exact ⟨k + 1, by rw [hk, pow_succ, mul_assoc]⟩
    · show t.batchCapacity * 2 < 2 ^ 32
      omega
    · show t.batchCount ≤ t.batchCapacity * 2
      omega
    · show t.batchCount + 1 ≤ t.batchCapacity * 2
      have := h.pos
      omega

theorem Sized.added (h : Sized t) (hlt : (t.batchCount : Int) < t.batchSize.toInt)
    (hroom : t.batchCount + 1 ≤ t.batchCapacity) (x : ι) :
    Sized { t with batchItems := t.batchItems ++ [x] } where
  steady := h.steady.added rfl rfl x hlt
  power := h.power
  small := h.small
  room := by
    rw [OutputState.batchCount, List.length_append]
    exact hroom

theorem Sized.flushes {env : EmitEnv} {posts : List (Post ι)} (h : Sized s)
    (hflush : Flushes text env s posts t) : Sized t := by
  cases hflush with
  | nothing => exact h
  | full hne hfull => exact h.freed
  | overdue hne ho => exact h.freed

theorem Timed.flushes {env : EmitEnv} {posts : List (Post ι)} (h : Timed s)
    (hflush : Flushes text env s posts t) : Timed t := by
  cases hflush with
  | nothing => exact h
  | full hne hfull => exact timed_freed s
  | overdue hne ho => exact timed_freed s

/-- Posting leaves the state alone or empties it. -/
theorem httpPostBatch_state (text : ι → Bytes) (env : PostEnv) (s : OutputState ι) :
    (httpPostBatch text env s).2.2 = s ∨ (httpPostBatch text env s).2.2 = freeBatchItems s := by
  by_cases hne : s.batchItems = []
  · exact .inl (by rw [httpPostBatch_nil env hne])
  · rcases httpPostBatch_cases text env hne with he | he
    · exact .inl (by rw [he])
    · exact .inr (by rw [he])

/-- **An event** keeps the sizes, and with a clock that works the start. -/
theorem Sized.emit (h : Sized s) (text : ι → Bytes) (env : EmitEnv) (line : Option ι) :
    Sized (outputEmitEvent text env s line).2.2 ∧
      (env.startNow ≠ none → Timed s → Timed (outputEmitEvent text env s line).2.2) := by
  cases line with
  | none => exact ⟨h, fun _ ht => ht⟩
  | some x =>
  obtain ⟨posts, t, he, hflush, hlt⟩ := initialFlush_cases text env h.steady
  have ht := h.flushes hflush
  simp only [outputEmitEvent, h.steady.mode, he]
  by_cases hz : (maybeFlushHttpBatch text env.ageNow env.first s).1 = 0
  case neg =>
    rw [if_pos hz]
    exact ⟨ht, fun _ htimed => htimed.flushes hflush⟩
  rw [if_neg (not_not.mpr hz)]
  have hstarted := ht.started env.startNow
  have hstart : env.startNow ≠ none → (batchStartIfNeeded env.startNow t).batchStarted = true :=
    timed_started t
  have hlt' : ((batchStartIfNeeded env.startNow t).batchCount : Int) <
      (batchStartIfNeeded env.startNow t).batchSize.toInt := by
    rw [batchStartIfNeeded_eq]
    exact hlt hz
  generalize batchStartIfNeeded env.startNow t = v at hstarted hstart hlt' ⊢
  obtain ⟨code, u, hroom, hu, hitems, hsize, hustarted, hfits⟩ := hstarted.ensureOne hlt' env.realloc
  have hkept : env.startNow ≠ none → Timed s → Timed u :=
    fun hnow _ _ => hustarted.trans (hstart hnow)
  rw [hroom]
  dsimp only
  by_cases hcode : code = 0
  case neg =>
    rw [if_pos hcode]
    exact ⟨hu, hkept⟩
  rw [if_neg (not_not.mpr hcode)]
  cases env.strdup with
  | false => exact ⟨hu, hkept⟩
  | true =>
    have hucount : u.batchCount = v.batchCount := by rw [OutputState.batchCount, hitems, OutputState.batchCount]
    have hadded := hu.added (by rw [hucount, hsize]; exact hlt') (by rw [hucount]; exact hfits hcode) x
    have htimed : env.startNow ≠ none → Timed s → Timed { u with batchItems := u.batchItems ++ [x] } :=
      fun hnow _ _ => hustarted.trans (hstart hnow)
    simp only [Bool.not_true, Bool.false_eq_true, if_false]
    split
    · rcases httpPostBatch_state text env.second { u with batchItems := u.batchItems ++ [x] } with he | he
      · rw [he]
        exact ⟨hadded, htimed⟩
      · rw [he]
        exact ⟨hadded.freed, fun _ _ => timed_freed _⟩
    · exact ⟨hadded, htimed⟩

theorem Sized.flush (h : Sized s) (text : ι → Bytes) (env : PostEnv) :
    Sized (outputFlush text env s).2.2 ∧ (Timed s → Timed (outputFlush text env s).2.2) := by
  rw [outputFlush, if_pos h.steady.mode]
  rcases httpPostBatch_state text env s with he | he
  · rw [he]
    exact ⟨h, fun ht => ht⟩
  · rw [he]
    exact ⟨h.freed, fun _ => timed_freed s⟩

/-! ## The array in memory -/

/-- The relation between the count, the capacity and the places of the array. -/
structure Buffered (m : OutputMemory) : Prop where
  power : ∃ k, m.batchCapacity = 16 * 2 ^ k
  count : m.batchCount ≤ m.batchCapacity
  slots : ∃ slots, m.batchItems = some slots ∧ slots.length = m.batchCapacity ∧
    ∀ i p, slots[i]? = some p → (p ≠ none ↔ i < m.batchCount)

/-- Where `output_emit_event` gets to the array: the loop that doubles ends,
without wrapping, and the place it writes to is inside the allocation. -/
def AppendsInside (m : OutputMemory) (env : EmitCall) : Prop :=
  ∀ actions flushed, m.maybeFlushHttpBatch env.ageNow env.first = some (0, actions, flushed) →
    let m := flushed.batchStartIfNeeded env.startNow
    let needed := m.batchCount + 1
    (needed < 2 ^ 32 ∧ m.batchCapacity < 2 ^ 32) ∧
      (needed ≤ m.batchCapacity ∨ ∃ turns grown,
        growSize (UInt64.ofNat needed) turns (UInt64.ofNat m.batchCapacity) = some grown ∧
          grown.toNat = growCapacity needed needed m.batchCapacity ∧ needed ≤ grown.toNat ∧
          arrayBytes grown.toNat < 2 ^ 64) ∧
      ((m.batchEnsureCapacity env.realloc needed).1 = 0 →
        ∃ slots, (m.batchEnsureCapacity env.realloc needed).2.batchItems = some slots ∧
          (m.batchEnsureCapacity env.realloc needed).2.batchCount < slots.length)

variable {m : OutputMemory} {items : List Bytes}

/-- The memory holds a list whose sizes are right. -/
structure Kept (m : OutputMemory) (items : List Bytes) : Prop where
  holds : Holds m items
  sized : Sized (m.view items)

theorem Kept.slots (h : Kept m items) :
    m.batchItems = some (items.map some ++ List.replicate (m.batchCapacity - items.length) none) := by
  have hsome : m.batchItems.isSome = true := h.sized.steady.allocated
  obtain ⟨slots, hslots⟩ := Option.isSome_iff_exists.mp hsome
  rw [hslots, ← h.holds.slots, hslots, Option.getD_some]

theorem Kept.buffered (h : Kept m items) : Buffered m where
  power := h.sized.power
  count := h.holds.count ▸ h.holds.room
  slots := by
    have hroom := h.holds.room
    refine ⟨_, h.slots, ?_, ?_⟩
    · rw [List.length_append, List.length_map, List.length_replicate]
      omega
    · intro i p hp
      rw [h.holds.count]
      rcases Nat.lt_or_ge i items.length with hi | hi
      · rw [List.getElem?_append_left (by rwa [List.length_map]), List.getElem?_map,
          List.getElem?_eq_getElem hi] at hp
        cases hp
        exact iff_of_true (Option.some_ne_none _) hi
      · rw [List.getElem?_append_right (by rwa [List.length_map])] at hp
        have hnone := List.eq_of_mem_replicate (List.mem_of_getElem? hp)
        exact iff_of_false (fun hne => hne hnone) (not_lt.mpr hi)

/-- The flush at the start of `output_emit_event`, when it goes well. -/
theorem Kept.flushed (h : Kept m items) (now : Option Timespec) (env : PostCall) {actions : List Action}
    {flushed : OutputMemory} (hflush : m.maybeFlushHttpBatch now env = some (0, actions, flushed)) :
    ∃ items', Kept flushed items' ∧ (items'.length : Int) < flushed.batchSize.toInt := by
  obtain ⟨items', actions', flushed', hreply, -, hholds, hview, -⟩ := (h.holds.maybeFlushHttpBatch now env).elim
  obtain ⟨posts, t, he, hflushes, hlt⟩ := initialFlush_cases id
    ⟨now, PostCall.view env items, none, false, false, PostCall.view env items⟩ h.sized.steady
  rw [hflush, Option.some.injEq, Prod.mk.injEq, Prod.mk.injEq] at hreply
  obtain ⟨hcode, -, rfl⟩ := hreply
  dsimp only at he hlt
  rw [← hcode] at hlt
  have ht : t = flushed.view items' := by rw [← hview, he]
  subst ht
  exact ⟨items', ⟨hholds, h.sized.flushes hflushes⟩, hlt rfl⟩

theorem Kept.started (h : Kept m items) (now : Option Timespec) : Kept (m.batchStartIfNeeded now) items := by
  obtain ⟨hholds, hview⟩ := h.holds.batchStartIfNeeded now
  exact ⟨hholds, hview ▸ h.sized.started now⟩

theorem batchStartIfNeeded_size (m : OutputMemory) (now : Option Timespec) :
    (m.batchStartIfNeeded now).batchSize = m.batchSize := by
  unfold OutputMemory.batchStartIfNeeded
  split
  · rfl
  · cases now <;> rfl

theorem Kept.ensured (h : Kept m items) (hlt : (items.length : Int) < m.batchSize.toInt) (realloc : Bool) :
    Kept (m.batchEnsureCapacity realloc (m.batchCount + 1)).2 items ∧
      ((m.batchEnsureCapacity realloc (m.batchCount + 1)).1 = 0 →
        items.length < (m.batchEnsureCapacity realloc (m.batchCount + 1)).2.batchCapacity) := by
  have hcount : (m.view items).batchCount = m.batchCount := h.holds.count.symm
  obtain ⟨code, u, hroom, hsized, -⟩ := h.sized.ensureOne hlt realloc
  obtain ⟨hcode, hholds, hview, hfits⟩ := h.holds.batchEnsureCapacity realloc (m.batchCount + 1)
  rw [hcount] at hroom
  rw [hroom] at hcode hview hfits
  refine ⟨⟨hholds, hview ▸ hsized⟩, fun hzero => ?_⟩
  have hplace : m.batchCount + 1 ≤ u.batchCapacity := hfits (hcode.symm.trans hzero)
  have hcapacity : u.batchCapacity =
      (m.batchEnsureCapacity realloc (m.batchCount + 1)).2.batchCapacity :=
    congrArg OutputState.batchCapacity hview.symm
  rw [← hcapacity, ← h.holds.count]
  exact hplace

theorem Kept.appendsInside (h : Kept m items) (env : EmitCall) : AppendsInside m env := by
  intro actions flushed hflush
  obtain ⟨items', hflushed, hlt⟩ := h.flushed env.ageNow env.first hflush
  have hstarted := hflushed.started env.startNow
  rw [← batchStartIfNeeded_size flushed env.startNow] at hlt
  generalize flushed.batchStartIfNeeded env.startNow = u at hstarted hlt ⊢
  have hsize := size_lt u.batchSize
  have hsmall : u.batchCapacity < 2 ^ 32 := hstarted.sized.small
  have hcount := hstarted.holds.count
  have hroom := hstarted.holds.room
  have hpos : 0 < u.batchCapacity := hstarted.sized.pos
  refine ⟨⟨by omega, hsmall⟩, ?_, ?_⟩
  · by_cases hfits : u.batchCount + 1 ≤ u.batchCapacity
    · exact .inl hfits
    · have hfull : u.batchCapacity + 1 = u.batchCount + 1 := by omega
      have hsize64 : UInt64.size = 2 ^ 64 := rfl
      have hgrown : (UInt64.ofNat (u.batchCapacity * 2)).toNat = u.batchCapacity * 2 :=
        UInt64.toNat_ofNat_of_lt' (by omega)
      refine .inr ⟨2, _, growSize_double hfull hpos hsmall, ?_, ?_, ?_⟩
      · rw [hgrown, growCapacity_double hfull hpos]
      · omega
      · rw [hgrown, arrayBytes]
        omega
  · intro hzero
    obtain ⟨hkept, hplace⟩ := hstarted.ensured hlt env.realloc
    refine ⟨_, hkept.slots, ?_⟩
    have := hplace hzero
    rw [hkept.holds.count, List.length_append, List.length_map, List.length_replicate]
    omega

/-! ## Runs -/

/-- The clock of `batch_start_if_needed` can be read. -/
def MemoryCall.ClockWorks : MemoryCall → Prop
  | .emit _ env => env.startNow ≠ none
  | .flush _ => True

theorem Kept.exec (h : Kept m items) (c : MemoryCall) :
    ∃ m' items', c.exec m = some m' ∧ Kept m' items' ∧
      (MemoryCall.ClockWorks c → Timed (m.view items) → Timed (m'.view items')) := by
  cases c with
  | emit line env =>
    obtain ⟨env', hnow, actions, m', hreply, -, hholds, hview, -⟩ := h.holds.outputEmitEvent env line
    obtain ⟨hsized, htimed⟩ := h.sized.emit id env' (line.map cstr)
    rw [← hview] at hsized htimed
    refine ⟨m', _, by rw [MemoryCall.exec, hreply]; rfl, ⟨hholds, hsized⟩, fun hclock => htimed ?_⟩
    rw [hnow]
    exact hclock
  | flush env =>
    obtain ⟨actions, m', hreply, -, hholds, hview, -⟩ := h.holds.outputFlush env
    obtain ⟨hsized, htimed⟩ := h.sized.flush id (PostCall.view env items)
    rw [← hview] at hsized htimed
    exact ⟨m', _, by rw [MemoryCall.exec, hreply]; rfl, ⟨hholds, hsized⟩, fun _ => htimed⟩

theorem Kept.run (h : Kept m items) (calls : List MemoryCall) :
    ∃ m' items', run MemoryCall.exec m calls = some m' ∧ Kept m' items' ∧
      ((∀ c ∈ calls, MemoryCall.ClockWorks c) → Timed (m.view items) → Timed (m'.view items')) := by
  induction calls generalizing m items with
  | nil => exact ⟨m, items, rfl, h, fun _ ht => ht⟩
  | cons c calls ih =>
    obtain ⟨m₁, items₁, hc, h₁, htimed₁⟩ := h.exec c
    obtain ⟨m', items', hrun, h', htimed'⟩ := ih h₁
    refine ⟨m', items', by rw [run_cons, hc, Option.bind_some, hrun], h', fun hclock ht => ?_⟩
    exact htimed' (fun d hd => hclock d (by simp [hd])) (htimed₁ (hclock c (by simp)) ht)

theorem fresh_kept {env : InitEnv} {cfg : Option SyswatchConfig} {g s : OutputState Bytes}
    (h : outputInit Bytes env cfg g = (0, none, s)) (hm : s.mode = .httpPost) : Kept (fresh s) [] := by
  obtain ⟨hready, -, -⟩ := outputInit_ready h hm
  have hsteady := Steady.of_ready hready
  obtain ⟨cfg', url, auth, rfl⟩ := outputInit_httpPost h hm
  exact ⟨fresh_holds rfl,
    ⟨hsteady.mode, hsteady.interval, hsteady.size, Int.le_of_lt hsteady.size, rfl⟩, ⟨0, rfl⟩,
    (show 16 < 2 ^ 32 by decide), Nat.zero_le _⟩

/-- **The batch buffer**, after any calls that follow a successful `output_init`:
the array has 16 places or these doubled, the batch fits and fills exactly its
first places, a batch that is not empty has a start, and the next event is
written inside the array. -/
theorem batch_buffer_invariant {env : InitEnv} {cfg : Option SyswatchConfig} {g s : OutputState Bytes}
    (hinit : outputInit Bytes env cfg g = (0, none, s)) (hmode : s.mode = .httpPost)
    (calls : List MemoryCall) :
    ∃ m, run MemoryCall.exec (fresh s) calls = some m ∧ Buffered m ∧
      ((∀ c ∈ calls, MemoryCall.ClockWorks c) → 0 < m.batchCount → m.batchStarted = true) ∧
      ∀ env, AppendsInside m env := by
  obtain ⟨m, items, hrun, hkept, htimed⟩ := (fresh_kept hinit hmode).run calls
  refine ⟨m, hrun, hkept.buffered, fun hclock hpos => ?_, hkept.appendsInside⟩
  refine htimed hclock (fun hne => absurd rfl hne) fun hnil => ?_
  have hitems : items = [] := hnil
  have hcount := hkept.holds.count
  rw [hitems] at hcount
  exact hpos.ne' hcount

/-- An event, a flush for which there is no memory, and a second event. -/
theorem batch_buffer_invariant_example :
    let denied : PostCall := ⟨fun _ => none, false, .zero 2048, fun _ => ⟨[], .transportError⟩⟩
    let event : EmitCall := ⟨some ⟨7, 0⟩, denied, some ⟨7, 0⟩, true, true, denied⟩
    ∃ m, run MemoryCall.exec (fresh (httpStart Bytes httpConfig))
        [.emit (some (ascii "first")) event, .flush denied, .emit (some (ascii "second")) event] = some m ∧
      Buffered m ∧ (0 < m.batchCount → m.batchStarted = true) := by
  intro denied event
  obtain ⟨m, hrun, hbuffered, hstarted, -⟩ := @batch_buffer_invariant ⟨true, none, none, true, true⟩
    (some httpConfig) (.zero _) _ rfl rfl
    [.emit (some (ascii "first")) event, .flush denied, .emit (some (ascii "second")) event]
  refine ⟨m, hrun, hbuffered, hstarted ?_⟩
  simp [MemoryCall.ClockWorks, event]

end Syswatch.BatchInvariant
