import Syswatch.OutputDelivery

/-! # What makes `output.c` post

Everything a call may do in `http_post` mode, whether or not `malloc` and
`curl_easy_init` succeed: a batch goes out because it is full, because it is
overdue, or because it is flushed. -/

namespace Syswatch.OutputTriggers
open Lib.CText OutputDelivery

variable {ι : Type} {text : ι → Bytes}

/-- What every call keeps, also one that fails. -/
structure Steady (s : OutputState ι) : Prop where
  mode : s.mode = .httpPost
  interval : 0 < s.batchIntervalSeconds.toInt
  size : 0 < s.batchSize.toInt
  fits : (s.batchCount : Int) ≤ s.batchSize.toInt
  allocated : s.batchAllocated = true

theorem Steady.freed {s : OutputState ι} (h : Steady s) : Steady (freeBatchItems s) where
  mode := h.mode
  interval := h.interval
  size := h.size
  fits := Int.le_of_lt h.size
  allocated := h.allocated

theorem Steady.of_ready {s : OutputState ι} (h : Ready s) : Steady s where
  mode := h.mode
  interval := h.interval
  size := h.size_pos
  fits := Int.le_of_lt h.small
  allocated := h.room.1

theorem httpPostBatch_fails {env : PostEnv} {s : OutputState ι} (henv : ¬ Supplied env)
    (hne : s.batchItems ≠ []) : httpPostBatch text env s = (-1, [], s) := by
  have hcount : ¬ s.batchCount = 0 := fun hc => hne (List.length_eq_zero_iff.mp hc)
  rw [httpPostBatch, if_neg hcount]
  by_cases hm : env.malloc = true
  · have hcurl : env.curlInit = false := Bool.not_eq_true _ ▸ fun hcurl => henv ⟨hm, hcurl⟩
    rw [if_neg (by simp [hm]), if_pos (by simp [hcurl])]
  · rw [if_pos (by simp [hm])]

/-- A batch is handed over whole, or the call fails and nothing happens. -/
theorem httpPostBatch_cases (text : ι → Bytes) (env : PostEnv) {s : OutputState ι}
    (hne : s.batchItems ≠ []) :
    httpPostBatch text env s = (-1, [], s) ∨
      (httpPostBatch text env s).2 = ([.post (posted text env s)], freeBatchItems s) := by
  by_cases henv : Supplied env
  · exact .inr (by rw [httpPostBatch_spec text henv hne])
  · exact .inl (httpPostBatch_fails henv hne)

/-- The initial flush of `output_emit_event`: nothing, or the whole batch
because it is full or overdue. -/
inductive Flushes (text : ι → Bytes) (env : EmitEnv) (s : OutputState ι) :
    List (Post ι) → OutputState ι → Prop
  | nothing : Flushes text env s [] s
  | full (hne : s.batchItems ≠ []) (h : (s.batchCount : Int) = s.batchSize.toInt) :
    Flushes text env s [posted text env.first s] (freeBatchItems s)
  | overdue (hne : s.batchItems ≠ []) (h : Overdue env.ageNow s) :
    Flushes text env s [posted text env.first s] (freeBatchItems s)

theorem initialFlush_cases (text : ι → Bytes) (env : EmitEnv) {s : OutputState ι} (h : Steady s) :
    ∃ posts t, (maybeFlushHttpBatch text env.ageNow env.first s).2 = (posts.map .post, t) ∧
      Flushes text env s posts t ∧
      ((maybeFlushHttpBatch text env.ageNow env.first s).1 = 0 →
        (t.batchCount : Int) < t.batchSize.toInt) := by
  have hfits := h.fits
  have hsize := size_lt s.batchSize
  have hcast := ofNat_ge_iff (b := s.batchSize) (n := s.batchCount) (by omega)
  have hfreed : ((freeBatchItems s).batchCount : Int) < (freeBatchItems s).batchSize.toInt := h.size
  unfold maybeFlushHttpBatch
  by_cases hcount : s.batchCount = 0
  · rw [if_pos hcount]
    exact ⟨[], s, rfl, .nothing, fun _ => by rw [hcount]; exact h.size⟩
  have hne : s.batchItems ≠ [] := fun hi => hcount (List.length_eq_zero_iff.mpr hi)
  rw [if_neg hcount]
  by_cases hfull : s.batchSize.toInt ≤ s.batchCount
  · rw [if_pos (hcast.mpr hfull)]
    rcases httpPostBatch_cases text env.first hne with he | he
    · exact ⟨[], s, by rw [he]; rfl, .nothing, fun hz => by rw [he] at hz; cases hz⟩
    · exact ⟨[posted text env.first s], _, he, .full hne (le_antisymm hfits hfull), fun _ => hfreed⟩
  · rw [if_neg (mt hcast.mp hfull)]
    have hlt : (s.batchCount : Int) < s.batchSize.toInt := not_le.mp hfull
    by_cases ho : s.batchStarted = true ∧ s.batchIntervalSeconds > 0 ∧
        batchAgeSeconds env.ageNow s ≥ s.batchIntervalSeconds.toInt
    · rw [if_pos ho]
      rcases httpPostBatch_cases text env.first hne with he | he
      · exact ⟨[], s, by rw [he]; rfl, .nothing, fun _ => hlt⟩
      · exact ⟨[posted text env.first s], _, he, .overdue hne ⟨hcount, ho.1, ho.2.2⟩, fun _ => hfreed⟩
    · rw [if_neg ho]
      exact ⟨[], s, rfl, .nothing, fun _ => hlt⟩

theorem Flushes.steady {env : EmitEnv} {s t : OutputState ι} {posts : List (Post ι)}
    (h : Flushes text env s posts t) (hs : Steady s) : Steady t := by
  cases h with
  | nothing => exact hs
  | full hne hf => exact hs.freed
  | overdue hne ho => exact hs.freed

/-- Everything `output_emit_event` can do with a line. -/
inductive Emits (text : ι → Bytes) (env : EmitEnv) (s : OutputState ι) (x : ι) :
    List (Post ι) → OutputState ι → Prop
  | gaveUp {posts : List (Post ι)} {t : OutputState ι} (h : Flushes text env s posts t) :
    Emits text env s x posts t
  | noMemory {posts : List (Post ι)} {t u : OutputState ι} (h : Flushes text env s posts t)
      (hfail : env.realloc = false ∨ env.strdup = false)
      (hu : u = batchStartIfNeeded env.startNow t ∨ MakesRoom env.startNow t u) :
    Emits text env s x posts u
  | waits {posts : List (Post ι)} {t u : OutputState ι} (h : Flushes text env s posts t)
      (hu : MakesRoom env.startNow t u) (hroom : (t.batchCount : Int) < t.batchSize.toInt) :
    Emits text env s x posts { u with batchItems := u.batchItems ++ [x] }
  | fills {posts : List (Post ι)} {t u : OutputState ι} (h : Flushes text env s posts t)
      (hu : MakesRoom env.startNow t u) (hroom : (t.batchCount : Int) + 1 = t.batchSize.toInt) :
    Emits text env s x (posts ++ [posted text env.second { u with batchItems := u.batchItems ++ [x] }])
      (freeBatchItems { u with batchItems := u.batchItems ++ [x] })

/-- Without memory there may be no room. -/
theorem makesRoom_cases (realloc : Bool) (now : Option Timespec) {t : OutputState ι}
    (h : t.batchAllocated = true) :
    (∃ u, batchEnsureCapacity realloc ((batchStartIfNeeded now t).batchCount + 1)
        (batchStartIfNeeded now t) = (0, u) ∧ MakesRoom now t u) ∨
      realloc = false ∧ batchEnsureCapacity realloc ((batchStartIfNeeded now t).batchCount + 1)
        (batchStartIfNeeded now t) = (-1, batchStartIfNeeded now t) := by
  cases realloc with
  | true => exact .inl (makesRoom now h)
  | false =>
    obtain ⟨u, he, hu⟩ := makesRoom now h
    unfold batchEnsureCapacity at he ⊢
    split
    · next hcap =>
      rw [if_pos hcap] at he
      exact .inl ⟨u, he, hu⟩
    · exact .inr ⟨rfl, rfl⟩

theorem outputEmitEvent_cases (text : ι → Bytes) (env : EmitEnv) {s : OutputState ι} (h : Steady s) (x : ι) :
    ∃ posts s', (outputEmitEvent text env s (some x)).2 = (posts.map .post, s') ∧
      Emits text env s x posts s' := by
  obtain ⟨posts, t, he, hflush, hlt⟩ := initialFlush_cases text env h
  have ht := hflush.steady h
  simp only [outputEmitEvent, h.mode, he]
  by_cases hz : (maybeFlushHttpBatch text env.ageNow env.first s).1 = 0
  · rw [if_neg (not_not.mpr hz)]
    rcases makesRoom_cases env.realloc env.startNow ht.allocated with ⟨u, hroom, hu⟩ | ⟨hr, hroom⟩
    · rw [hroom]
      cases hstrdup : env.strdup with
      | false => exact ⟨posts, u, rfl, .noMemory hflush (.inr hstrdup) (.inr hu)⟩
      | true =>
        have hlt := hlt hz
        have hsize := size_lt t.batchSize
        have hcast := ofNat_ge_iff (b := u.batchSize) (n := t.batchCount + 1) (by omega)
        simp only [ne_eq, not_true_eq_false, if_false, Bool.not_true, Bool.false_eq_true,
          OutputState.batchCount, List.length_append, List.length_singleton]
        rw [← OutputState.batchCount, show u.batchCount = t.batchCount by
          rw [OutputState.batchCount, hu.items, OutputState.batchCount]]
        by_cases hfull : Int32.ofNat (t.batchCount + 1) ≥ u.batchSize
        · rw [if_pos hfull]
          rcases httpPostBatch_cases text env.second
            (s := { u with batchItems := u.batchItems ++ [x] }) (by simp) with hp | hp
          · exact ⟨posts, _, by rw [hp, List.append_nil], .waits hflush hu hlt⟩
          · have hexact : (t.batchCount : Int) + 1 = t.batchSize.toInt := by
              have := hcast.mp hfull
              rw [hu.size] at this
              omega
            exact ⟨_, _, by rw [hp, List.map_append]; rfl, .fills hflush hu hexact⟩
        · rw [if_neg hfull]
          exact ⟨posts, _, rfl, .waits hflush hu hlt⟩
    · rw [hroom]
      exact ⟨posts, _, rfl, .noMemory hflush (.inl hr) (.inl rfl)⟩
  · rw [if_pos hz]
    exact ⟨posts, t, rfl, .gaveUp hflush⟩

theorem outputFlush_cases (text : ι → Bytes) (env : PostEnv) {s : OutputState ι} (h : Steady s) :
    ∃ (posts : List (Post ι)) (s' : OutputState ι),
      (outputFlush text env s).2 = (posts.map .post, s') ∧
        (s' = s ∨ s' = freeBatchItems s) := by
  rw [outputFlush, if_pos h.mode]
  by_cases hne : s.batchItems = []
  · exact ⟨[], s, by rw [httpPostBatch_nil env hne]; rfl, .inl rfl⟩
  · rcases httpPostBatch_cases text env hne with he | he
    · exact ⟨[], s, by rw [he]; rfl, .inl rfl⟩
    · exact ⟨[posted text env s], _, he, .inr rfl⟩

/-! ## What follows for the state and the posts -/

/-- The settings a batch is judged by. -/
structure SameSettings (s s' : OutputState ι) : Prop where
  size : s'.batchSize = s.batchSize
  interval : s'.batchIntervalSeconds = s.batchIntervalSeconds

theorem Flushes.settings {env : EmitEnv} {s t : OutputState ι} {posts : List (Post ι)}
    (h : Flushes text env s posts t) : SameSettings s t := by
  cases h <;> exact ⟨rfl, rfl⟩

theorem MakesRoom.settings {now : Option Timespec} {t u : OutputState ι}
    (h : MakesRoom now t u) : SameSettings t u := ⟨h.size, h.interval⟩

theorem SameSettings.trans {s t u : OutputState ι} (h : SameSettings s t) (h' : SameSettings t u) :
    SameSettings s u := ⟨h'.size.trans h.size, h'.interval.trans h.interval⟩

theorem batchStartIfNeeded_settings (now : Option Timespec) (t : OutputState ι) :
    SameSettings t (batchStartIfNeeded now t) := by
  rw [batchStartIfNeeded_eq]
  exact ⟨rfl, rfl⟩

theorem Emits.settings {env : EmitEnv} {s s' : OutputState ι} {x : ι} {posts : List (Post ι)}
    (h : Emits text env s x posts s') : SameSettings s s' := by
  cases h with
  | gaveUp h => exact h.settings
  | noMemory h hfail hu =>
    rcases hu with rfl | hu
    · exact h.settings.trans (batchStartIfNeeded_settings _ _)
    · exact h.settings.trans (MakesRoom.settings hu)
  | waits h hu hroom => exact h.settings.trans ⟨hu.size, hu.interval⟩
  | fills h hu hroom => exact h.settings.trans ⟨hu.size, hu.interval⟩

theorem Steady.started {t : OutputState ι} (h : Steady t) (now : Option Timespec) :
    Steady (batchStartIfNeeded now t) := by
  rw [batchStartIfNeeded_eq]
  exact ⟨h.mode, h.interval, h.size, h.fits, h.allocated⟩

theorem Steady.room {now : Option Timespec} {t u : OutputState ι} (h : Steady t)
    (hu : MakesRoom now t u) : Steady u where
  mode := hu.mode.trans h.mode
  interval := hu.interval ▸ h.interval
  size := hu.size ▸ h.size
  fits := by
    have := h.fits
    rwa [OutputState.batchCount, ← hu.items, ← hu.size] at this
  allocated := hu.room.1

theorem Steady.added {t u : OutputState ι} (h : Steady u) (hitems : u.batchItems = t.batchItems)
    (hsize : u.batchSize = t.batchSize) (x : ι) (hroom : (t.batchCount : Int) < t.batchSize.toInt) :
    Steady { u with batchItems := u.batchItems ++ [x] } where
  mode := h.mode
  interval := h.interval
  size := h.size
  fits := by
    simp only [OutputState.batchCount, List.length_append, List.length_singleton, hitems,
      hsize] at hroom ⊢
    omega
  allocated := h.allocated

theorem Emits.steady {env : EmitEnv} {s s' : OutputState ι} {x : ι} {posts : List (Post ι)}
    (h : Emits text env s x posts s') (hs : Steady s) : Steady s' := by
  cases h with
  | gaveUp h => exact h.steady hs
  | noMemory h hfail hu =>
    rcases hu with rfl | hu
    · exact (h.steady hs).started _
    · exact (h.steady hs).room hu
  | waits h hu hroom => exact ((h.steady hs).room hu).added hu.items hu.size x hroom
  | fills h hu hroom => exact (((h.steady hs).room hu).added hu.items hu.size x (by omega)).freed

/-- **A batch posted by `output_emit_event`** is full, or was overdue when the
call began. -/
theorem Emits.triggers {env : EmitEnv} {s s' : OutputState ι} {x : ι} {posts : List (Post ι)}
    (h : Emits text env s x posts s') : ∀ p ∈ posts,
      (p.batch.length : Int) = s.batchSize.toInt ∨
        p.batch = s.batchItems ∧ Overdue env.ageNow s := by
  have hflush : ∀ {posts t}, Flushes text env s posts t → ∀ p ∈ posts,
      (p.batch.length : Int) = s.batchSize.toInt ∨
        p.batch = s.batchItems ∧ Overdue env.ageNow s := by
    intro posts t hf p hp
    cases hf with
    | nothing => cases hp
    | full hne hfull => rw [List.mem_singleton.mp hp]; exact .inl hfull
    | overdue hne ho => rw [List.mem_singleton.mp hp]; exact .inr ⟨rfl, ho⟩
  intro p hp
  cases h with
  | gaveUp h => exact hflush h p hp
  | noMemory h hfail hu => exact hflush h p hp
  | waits h hu hroom => exact hflush h p hp
  | fills h hu hroom =>
    rcases List.mem_append.mp hp with hp | hp
    · exact hflush h p hp
    · left
      rw [List.mem_singleton.mp hp, ← h.settings.size, ← hroom]
      simp [posted, hu.items, OutputState.batchCount]

end Syswatch.OutputTriggers
