import Syswatch.ProcessBatching
import Syswatch.QueuedTexts

/-! # What the process posts

The batches of a run and then the buffer hold emitted events, in their order and
none twice. Where memory lasts and no batch runs out of attempts nothing is left
out, so that an orderly run ends with every accepted event posted once. -/

namespace Syswatch.PostedEvents
open Lib.CText Lib.Machine Lib.BoundedFifo QueueHistory Process OutputDelivery OutputTriggers
open ProcessShutdown ProcessBatching EventValues QueuedTexts

/-! ## One call -/

/-- What a call does with the buffer and the lines `added`: the new batches and
the buffer hold some of them, in order. -/
structure Hands (o : OutputState Handed) (added : List Handed) (posts : List (Post Handed))
    (o' : OutputState Handed) : Prop where
  order : (posts.flatMap Post.batch ++ o'.batchItems).Sublist (o.batchItems ++ added)
  proper : ∀ p ∈ posts, p.batch ≠ [] ∧ p.body = postBody (p.batch.map Handed.text)

theorem Hands.refl (o : OutputState Handed) (added : List Handed) : Hands o added [] o :=
  ⟨List.sublist_append_left _ _, List.forall_mem_nil _⟩

theorem flushes_hands {env : EmitEnv} {o t : OutputState Handed} {posts : List (Post Handed)}
    (h : Flushes Handed.text env o posts t) :
    posts.flatMap Post.batch ++ t.batchItems = o.batchItems ∧
      ∀ p ∈ posts, p.batch ≠ [] ∧ p.body = postBody (p.batch.map Handed.text) := by
  cases h with
  | nothing => exact ⟨rfl, List.forall_mem_nil _⟩
  | full hne hf => exact ⟨by simp [posted, freeBatchItems], List.forall_mem_singleton.mpr ⟨hne, rfl⟩⟩
  | overdue hne ho => exact ⟨by simp [posted, freeBatchItems], List.forall_mem_singleton.mpr ⟨hne, rfl⟩⟩

theorem emits_hands {env : EmitEnv} {o o' : OutputState Handed} {x : Handed} {posts : List (Post Handed)}
    (h : Emits Handed.text env o x posts o') : Hands o [x] posts o' := by
  cases h with
  | gaveUp h =>
    obtain ⟨hitems, hproper⟩ := flushes_hands h
    exact ⟨hitems ▸ List.sublist_append_left _ _, hproper⟩
  | @noMemory _ t u h hfail hu =>
    obtain ⟨hitems, hproper⟩ := flushes_hands h
    have hsame : o'.batchItems = t.batchItems := by
      rcases hu with rfl | hu
      · rw [batchStartIfNeeded_eq]
      · exact hu.items
    exact ⟨by rw [hsame, hitems]; exact List.sublist_append_left _ _, hproper⟩
  | waits h hu hroom =>
    obtain ⟨hitems, hproper⟩ := flushes_hands h
    refine ⟨?_, hproper⟩
    rw [← hitems, List.append_assoc, ← hu.items]
  | fills h hu hroom =>
    obtain ⟨hitems, hproper⟩ := flushes_hands h
    refine ⟨?_, ?_⟩
    · rw [← hitems, ← hu.items]
      simp [posted, freeBatchItems]
    · rw [List.forall_mem_append, List.forall_mem_singleton]
      exact ⟨hproper, by simp [posted], rfl⟩

/-- In the other modes there is no buffer. -/
structure Buffering (o : OutputState Handed) : Prop where
  steady : o.mode = .httpPost → Steady o
  empty : o.mode ≠ .httpPost → o.batchItems = []

theorem emit_hands {o : OutputState Handed} (h : Buffering o) (env : EmitEnv) (x : Handed) :
    ∃ posts, postsOf (outputEmitEvent Handed.text env o (some x)).2.1 = posts ∧
      Hands o [x] posts (outputEmitEvent Handed.text env o (some x)).2.2 ∧
      Buffering (outputEmitEvent Handed.text env o (some x)).2.2 := by
  by_cases hmode : o.mode = .httpPost
  · have hs := h.steady hmode
    obtain ⟨posts, o', he, hemits⟩ := outputEmitEvent_cases Handed.text env hs x
    have hs' := hemits.steady hs
    rw [he]
    exact ⟨posts, postsOf_map posts, emits_hands hemits, fun _ => hs', fun hm => absurd hs'.mode hm⟩
  · obtain ⟨hnone, hsame⟩ := outputEmitEvent_other env hmode x
    rw [hsame]
    exact ⟨[], hnone, .refl o [x], h⟩

theorem flush_hands {o : OutputState Handed} (h : Buffering o) (env : PostEnv) :
    ∃ posts, postsOf (outputFlush Handed.text env o).2.1 = posts ∧
      Hands o [] posts (outputFlush Handed.text env o).2.2 ∧
      Buffering (outputFlush Handed.text env o).2.2 := by
  by_cases hmode : o.mode = .httpPost
  · have hs := h.steady hmode
    rw [outputFlush, if_pos hmode]
    by_cases hne : o.batchItems = []
    · rw [httpPostBatch_nil env hne]
      exact ⟨[], rfl, .refl o [], h⟩
    · rcases httpPostBatch_cases Handed.text env hne with he | he
      · rw [he]
        exact ⟨[], rfl, .refl o [], h⟩
      · rw [he]
        refine ⟨[posted Handed.text env o], rfl, ⟨?_, List.forall_mem_singleton.mpr ⟨hne, rfl⟩⟩,
          fun _ => hs.freed, fun hm => absurd hmode hm⟩
        simp [posted, freeBatchItems]
  · rw [outputFlush_other env hmode]
    exact ⟨[], rfl, .refl o [], h⟩

theorem batchReset_items (calloc : Bool) (o : OutputState Handed) :
    (batchReset calloc o).batchItems = [] := by
  simp only [batchReset]
  split <;> rfl

/-- A successful `output_init` leaves an empty buffer. -/
theorem outputInit_empty {init : InitEnv} {cfg : Option SyswatchConfig} {g o : OutputState Handed}
    (h : outputInit Handed init cfg g = (0, none, o)) : o.batchItems = [] := by
  cases cfg with
  | none => cases h
  | some cfg =>
    simp only [outputInit] at h
    split at h
    · cases h; rfl
    · split at h
      · split at h
        · cases h
        · split at h
          · cases h
          · cases h; rfl
      · split at h
        · split at h
          · cases h
          · split at h
            · cases h
            · obtain ⟨-, h⟩ | ⟨-, h⟩ := ite_eq_iff.mp h
              · cases h
              · exact (congrArg (fun r => r.2.2.batchItems) h).symm.trans (batchReset_items _ _)
        · cases h

theorem init_buffering {init : InitEnv} {cfg : Option SyswatchConfig} {g o : OutputState Handed}
    (h : outputInit Handed init cfg g = (0, none, o)) : Buffering o where
  steady hm := .of_ready (outputInit_ready h hm).1
  empty _ := outputInit_empty h

/-! ## Every run -/

/-- The events of the batches, in their order. -/
def batched (s : Process) : List Handed := s.posts.flatMap (·.post.batch)

theorem batched_note (s : Process) (origin : Origin) (ageNow : Option Timespec) (effects : List (Effect Handed)) :
    (s.note origin ageNow effects).flatMap (·.post.batch) =
      batched s ++ (postsOf effects).flatMap Post.batch := by
  rw [note, List.flatMap_append, List.flatMap_map]
  rfl

structure Kept (s : Process) : Prop where
  linked : Linked s
  buffering : Buffering s.output
  order : (batched s ++ s.output.batchItems).Sublist s.emitted
  proper : ∀ r ∈ s.posts, r.post.batch ≠ [] ∧ r.post.body = postBody (r.post.batch.map Handed.text)

/-- A step that calls the output. -/
theorem Kept.call {s s' : Process} (h : Kept s) (hl : Linked s') (hb : Buffering s'.output)
    {added : List Handed} {origin : Origin} {ageNow : Option Timespec} {effects : List (Effect Handed)}
    (hh : Hands s.output added (postsOf effects) s'.output)
    (hemitted : s'.emitted = s.emitted ++ added) (hposts : s'.posts = s.note origin ageNow effects) :
    Kept s' where
  linked := hl
  buffering := hb
  order := by
    rw [batched, hposts, batched_note, hemitted, List.append_assoc]
    have hgrown := (List.Sublist.refl (batched s)).append hh.order
    rw [← List.append_assoc (batched s) s.output.batchItems] at hgrown
    exact hgrown.trans (h.order.append (.refl added))
  proper := by
    rw [hposts, note, List.forall_mem_append]
    refine ⟨h.proper, fun r hr => ?_⟩
    obtain ⟨p, hp, rfl⟩ := List.mem_map.mp hr
    exact hh.proper p hp

/-- A step that leaves it alone. -/
theorem Kept.frame {s s' : Process} (h : Kept s) (hl : Linked s') (hout : s'.output = s.output)
    (hemitted : s'.emitted = s.emitted) (hposts : s'.posts = s.posts) : Kept s' where
  linked := hl
  buffering := hout ▸ h.buffering
  order := by
    rw [batched, hposts, hout, hemitted]
    exact h.order
  proper := hposts ▸ h.proper

theorem zero_buffering : Buffering (.zero Handed) := ⟨nofun, fun _ => rfl⟩

theorem Kept.shutdown {s : Process} (h : Kept s) {env : PostEnv} {next : MainPc}
    (hl : Linked (s.shutdownOutput env next)) : Kept (s.shutdownOutput env next) := by
  obtain ⟨posts, hp, hh, -⟩ := flush_hands h.buffering env
  have hnone : s.emitted = s.emitted ++ [] := (List.append_nil _).symm
  refine h.call hl zero_buffering ⟨?_, hp ▸ hh.proper⟩ hnone rfl
  rw [show (outputShutdown Handed.text env s.output).1 =
    (outputFlush Handed.text env s.output).2.1 from rfl, hp]
  exact (List.Sublist.append (.refl _) (List.nil_sublist _)).trans hh.order

theorem step_kept {cfg : SyswatchConfig} {s s' : Process} {l : Label} (h : Kept s)
    (hm : Move cfg s l s') : Kept s' := by
  have hlinked := step_linked h.linked hm
  cases hm with
  | signal => exact h.frame hlinked rfl rfl rfl
  | tick now hc => exact h.frame hlinked rfl rfl rfl
  | collector hs hc he => exact h.frame hlinked rfl rfl rfl
  | delivery hd =>
    cases hd with
    | emit event rest env now line hp hc hline =>
      obtain ⟨posts, hposts, hh, hb⟩ := emit_hands h.buffering env line
      exact h.call hlinked hb (hposts ▸ hh) rfl rfl
    | drained env hp =>
      obtain ⟨posts, hposts, hh, hb⟩ := flush_hands h.buffering env
      exact h.call hlinked hb (hposts ▸ hh) (List.append_nil _).symm rfl
    | final env hp =>
      obtain ⟨posts, hposts, hh, hb⟩ := flush_hands h.buffering env
      exact h.call hlinked hb (hposts ▸ hh) (List.append_nil _).symm rfl
    | _ => exact h.frame hlinked rfl rfl rfl
  | main hc =>
    cases hc with
    | shutdown env hm => exact h.shutdown hlinked
    | failedShutdown env hm => exact h.shutdown hlinked
    | _ => exact h.frame hlinked rfl rfl rfl

theorem start_kept {init : InitEnv} {cfg : Option SyswatchConfig} {g output : OutputState Handed}
    (hinit : outputInit Handed init cfg g = (0, none, output)) (memory : Nat → EventQueueEntry)
    (clock : ℚ) : Kept (.start memory clock output) where
  linked := start_linked memory clock output
  buffering := init_buffering hinit
  order := by
    rw [show (Process.start memory clock output).output.batchItems = [] from outputInit_empty hinit]
    exact .refl []
  proper := List.forall_mem_nil _

/-- What was emitted are accepted events, in their order. -/
theorem emitted_sorted {s : Process} (h : Linked s) :
    (s.emitted.map fun x => x.event.1).Pairwise (· < ·) ∧
      ∀ x ∈ s.emitted, s.tracked.accepted[x.event.1]? = some x.event.2 := by
  obtain ⟨lost, hl⟩ := h.queue
  have htaken := h.taken
  constructor
  · have hsorted := hl.good.sorted
    simp only [Tracked.ledger, htaken, Ledger.nums_append, List.append_assoc] at hsorted
    have := (List.pairwise_append.mp hsorted).1
    rwa [Ledger.nums, List.map_map] at this
  · intro x hx
    refine hl.good.named x.event (List.mem_append_left _ (List.mem_append_left _ ?_))
    rw [Tracked.ledger, htaken]
    exact List.mem_append_left _ (List.mem_map_of_mem hx)

/-- **Batches in every run** hold accepted events, each at most once and in the
order in which they were accepted, and carry the texts of their events. -/
theorem posted_in_order {init : InitEnv} {outputCfg : Option SyswatchConfig}
    {g output : OutputState Handed} (hinit : outputInit Handed init outputCfg g = (0, none, output))
    {cfg : SyswatchConfig} {memory : Nat → EventQueueEntry} {clock : ℚ} {labels : List Label}
    {s : Process} (hrun : run (step cfg) (.start memory clock output) labels = some s) :
    ((batched s).map fun x => x.event.1).Pairwise (· < ·) ∧
      (∀ x ∈ batched s, s.tracked.accepted[x.event.1]? = some x.event.2) ∧
      ∀ r ∈ s.posts, r.post.batch ≠ [] ∧ r.post.body = postBody (r.post.batch.map Handed.text) := by
  have hk : Kept s := run_preserves hrun (start_kept hinit memory clock) fun _ _ _ hk hs =>
    step_kept hk (step_cases hs)
  obtain ⟨hsorted, hnamed⟩ := emitted_sorted hk.linked
  have hsub : (batched s).Sublist s.emitted := (List.sublist_append_left _ _).trans hk.order
  exact ⟨hsorted.sublist (hsub.map _), fun x hx => hnamed x (hsub.subset hx), hk.proper⟩

/-! ## Nothing left out -/

/-- The system gives the output what it asks for. -/
def Granted : Label → Prop
  | .delivery (.emit env _) => SuppliedEmit env
  | .delivery (.flush env) => Supplied env
  | .main (.shutdown env) => Supplied env
  | _ => True

/-- No batch ran out of attempts. -/
def Answered (s : Process) : Prop := ∀ r ∈ s.posts, r.post.attempts.last ≠ .retry

def closed : MainPc → Bool
  | .destroy => true
  | .returned _ => true
  | _ => false

structure Complete (s : Process) : Prop where
  linked : Linked s
  ready : closed s.main = false → Ready s.output
  all : closed s.main = false → batched s ++ s.output.batchItems = s.emitted
  ended : s.main = .destroy → batched s = s.emitted

theorem Complete.frame {s s' : Process} (h : Complete s) (hl : Linked s') (hmain : s'.main = s.main)
    (hout : s'.output = s.output) (hemitted : s'.emitted = s.emitted) (hposts : s'.posts = s.posts) :
    Complete s' where
  linked := hl
  ready hc := hout ▸ h.ready (hmain ▸ hc)
  all hc := by
    rw [batched, hposts, hout, hemitted]
    exact h.all (hmain ▸ hc)
  ended hd := by
    rw [batched, hposts, hemitted]
    exact h.ended (hmain ▸ hd)

theorem Complete.call {s s' : Process} (h : Complete s) (hl : Linked s') (hnot : s.main ≠ .destroy)
    (hmain : s'.main = s.main) {added : List Handed} {origin : Origin} {ageNow : Option Timespec}
    {effects : List (Effect Handed)}
    (hp : closed s.main = false → Passes Handed.text s.output added (postsOf effects) s'.output)
    (hemitted : s'.emitted = s.emitted ++ added) (hposts : s'.posts = s.note origin ageNow effects) :
    Complete s' where
  linked := hl
  ready hc := (hp (hmain ▸ hc)).ready
  all hc := by
    rw [hmain] at hc
    rw [batched, hposts, batched_note, hemitted, List.append_assoc, (hp hc).exact, ← List.append_assoc,
      h.all hc]
  ended hd := absurd (hmain ▸ hd) hnot

/-- A batch that is abandoned is among the posts. -/
theorem abandons_retry {o : OutputState Handed} {env : EmitEnv} (hr : Ready o) (henv : SuppliedEmit env)
    (ha : Abandons env o) (x : Handed) :
    ∃ p ∈ postsOf (outputEmitEvent Handed.text env o (some x)).2.1, p.attempts.last = .retry := by
  have hflush := @maybeFlushHttpBatch_spec _ Handed.text env.ageNow env.first o hr henv.1
  rw [if_pos ha.1, if_pos ha.2] at hflush
  have heffects : (outputEmitEvent Handed.text env o (some x)).2.1 =
      [.post (posted Handed.text env.first o)] := by
    simp only [outputEmitEvent, hr.mode, hflush]
    rfl
  rw [heffects]
  exact ⟨_, List.mem_singleton_self _, (posted_last Handed.text env.first o).mpr ha.2⟩

theorem emit_passes {o : OutputState Handed} {env : EmitEnv} (hr : Ready o) (henv : SuppliedEmit env)
    (x : Handed) (hanswered : ∀ p ∈ postsOf (outputEmitEvent Handed.text env o (some x)).2.1,
      p.attempts.last ≠ .retry) :
    Passes Handed.text o [x] (postsOf (outputEmitEvent Handed.text env o (some x)).2.1)
      (outputEmitEvent Handed.text env o (some x)).2.2 := by
  have ha : ¬ Abandons env o := fun ha =>
    have ⟨p, hp, hlast⟩ := abandons_retry hr henv ha x
    hanswered p hp hlast
  obtain ⟨r, posts, o', he, hp⟩ := outputEmitEvent_keeps Handed.text hr henv ha x
  rw [he, postsOf_map]
  exact hp

theorem flush_passes {o : OutputState Handed} {env : PostEnv} (hr : Ready o) (henv : Supplied env) :
    Passes Handed.text o [] (postsOf (outputFlush Handed.text env o).2.1)
      (outputFlush Handed.text env o).2.2 ∧ (outputFlush Handed.text env o).2.2.batchItems = [] := by
  obtain ⟨r, posts, o', he, hp, hempty⟩ := outputFlush_spec Handed.text hr henv
  rw [he, postsOf_map]
  exact ⟨hp, hempty⟩

theorem Complete.shutdown {s : Process} (h : Complete s) (hopen : closed s.main = false) {env : PostEnv}
    (henv : Supplied env) {next : MainPc} (hnext : closed next = true)
    (hl : Linked (s.shutdownOutput env next)) : Complete (s.shutdownOutput env next) where
  linked := hl
  ready hc := absurd (hnext.symm.trans hc) (by decide)
  all hc := absurd (hnext.symm.trans hc) (by decide)
  ended _ := by
    obtain ⟨hp, hempty⟩ := flush_passes (h.ready hopen) henv
    have hexact := hp.exact
    rw [hempty, List.append_nil, List.append_nil] at hexact
    exact (batched_note s _ _ _).trans (hexact ▸ h.all hopen)

theorem mainStep_granted {s s' : Process} {i : MainInput} (h : s.mainStep s.main i = some s')
    (hg : Granted (.main i)) (hm : s.main = .shutdown ∨ s.main = .failedShutdown) :
    ∃ env next, Supplied env ∧ closed next = true ∧ s' = s.shutdownOutput env next := by
  rcases hm with hm | hm
  all_goals
    rw [hm] at h
    cases i <;> cases h
    exact ⟨_, _, hg, rfl, rfl⟩

theorem step_complete {cfg : SyswatchConfig} {s s' : Process} {l : Label} (h : Complete s)
    (hg : Granted l) (ha : Answered s') (hstep : step cfg s l = some s') : Complete s' := by
  have hm := step_cases hstep
  have hlinked := step_linked h.linked hm
  cases hm with
  | signal => exact h.frame hlinked rfl rfl rfl rfl
  | tick now hc => exact h.frame hlinked rfl rfl rfl rfl
  | collector hs hc he => exact h.frame hlinked rfl rfl rfl rfl
  | delivery hd =>
    have hnot : s.main ≠ .destroy := fun hmain =>
      (deliveryMove_frame hd).2.1 (h.linked.delivery (hmain ▸ rfl))
    cases hd with
    | emit event rest env now line hp hc hline =>
      refine h.call hlinked hnot rfl (fun hopen => emit_passes (h.ready hopen) hg line ?_) rfl rfl
      exact fun p hp => ha _ (List.mem_append_right _ (List.mem_map_of_mem hp))
    | drained env hp =>
      exact h.call hlinked hnot rfl (fun hopen => (flush_passes (h.ready hopen) hg).1)
        (List.append_nil _).symm rfl
    | final env hp =>
      exact h.call hlinked hnot rfl (fun hopen => (flush_passes (h.ready hopen) hg).1)
        (List.append_nil _).symm rfl
    | _ => exact h.frame hlinked rfl rfl rfl rfl
  | main hc =>
    have hmove : ∀ {s' : Process}, Linked s' → closed s.main = false → s'.main ≠ .destroy →
        s'.output = s.output → s'.emitted = s.emitted → s'.posts = s.posts → Complete s' := by
      intro s' hl hopen hnot hout hemitted hposts
      refine ⟨hl, fun _ => hout ▸ h.ready hopen, fun _ => ?_, fun hd => absurd hd hnot⟩
      rw [batched, hposts, hout, hemitted]
      exact h.all hopen
    cases hc with
    | shutdown _ hmain =>
      obtain ⟨env, next, henv, hnext, he⟩ := mainStep_granted hstep hg (.inl hmain)
      rw [he] at hlinked ⊢
      exact h.shutdown (hmain ▸ rfl) henv hnext hlinked
    | failedShutdown _ hmain =>
      obtain ⟨env, next, henv, hnext, he⟩ := mainStep_granted hstep hg (.inr hmain)
      rw [he] at hlinked ⊢
      exact h.shutdown (hmain ▸ rfl) henv hnext hlinked
    | destroyed hmain => exact ⟨hlinked, nofun, nofun, nofun⟩
    | created hmain => exact hmove hlinked (hmain ▸ rfl) nofun rfl rfl rfl
    | failed hmain => exact hmove hlinked (hmain ▸ rfl) nofun rfl rfl rfl
    | joined hmain hc => exact hmove hlinked (hmain ▸ rfl) nofun rfl rfl rfl
    | stop hmain => exact hmove hlinked (hmain ▸ rfl) nofun rfl rfl rfl
    | delivered hmain hd => exact hmove hlinked (hmain ▸ rfl) nofun rfl rfl rfl
    | failedStop hmain => exact hmove hlinked (hmain ▸ rfl) nofun rfl rfl rfl
    | failedJoin hmain hc => exact hmove hlinked (hmain ▸ rfl) nofun rfl rfl rfl

theorem start_complete {init : InitEnv} {cfg : Option SyswatchConfig} {g output : OutputState Handed}
    (hinit : outputInit Handed init cfg g = (0, none, output)) (hmode : output.mode = .httpPost)
    (memory : Nat → EventQueueEntry) (clock : ℚ) : Complete (.start memory clock output) where
  linked := start_linked memory clock output
  ready _ := (outputInit_ready hinit hmode).1
  all _ := (outputInit_ready hinit hmode).2.1
  ended := nofun

/-- Posts are only added. -/
theorem move_posts {cfg : SyswatchConfig} {s s' : Process} {l : Label} (hm : Move cfg s l s') :
    s.posts <+: s'.posts := by
  cases hm with
  | delivery hd => cases hd <;> first | exact List.prefix_rfl | exact List.prefix_append _ _
  | main hc => cases hc <;> first | exact List.prefix_rfl | exact List.prefix_append _ _
  | _ => exact List.prefix_rfl

theorem run_complete {cfg : SyswatchConfig} {s₀ s : Process} {labels : List Label} (h₀ : Complete s₀)
    (hrun : run (step cfg) s₀ labels = some s) (hg : ∀ l ∈ labels, Granted l) (ha : Answered s) :
    Complete s := by
  refine run_invariant (P := fun ls t => (∀ l ∈ ls, Granted l) → Answered t → Complete t)
    (fun _ _ => h₀) ?_ hrun hg ha
  intro ls t l u _ ih hu hls hanswered
  rw [List.forall_mem_append, List.forall_mem_singleton] at hls
  have hbefore : Answered t := fun r hr => hanswered r ((move_posts (step_cases hu)).subset hr)
  exact step_complete (ih hls.1 hbefore) hls.2 hanswered hu

theorem events_of_numbers {events : List Handed} {accepted : List EventQueueEntry}
    (hn : events.map (fun x => x.event.1) = List.range accepted.length)
    (hnamed : ∀ x ∈ events, accepted[x.event.1]? = some x.event.2) :
    events.map (fun x => x.event.2) = accepted := by
  have hlen : events.length = accepted.length := by simpa using congrArg List.length hn
  refine List.ext_getElem (by simpa using hlen) fun i hi hi' => ?_
  rw [List.length_map] at hi
  have hnumber : events[i].event.1 = i := by
    have hget := congrArg (fun l => l[i]?) hn
    simpa [hi, hi'] using hget
  have hentry := hnamed events[i] (List.getElem_mem hi)
  rw [hnumber, List.getElem?_eq_getElem hi'] at hentry
  rw [List.getElem_map]
  exact (Option.some.inj hentry).symm

/-- Where the accepted events are when the delivery thread has left an empty queue. -/
theorem emitted_accounts {s : Process} (h : Linked s) (hq : queueSize s.tracked.queue = 0)
    (hd : s.delivery = .finished) :
    ∃ lost : List Nat, queueDroppedCount s.tracked.queue = UInt64.ofNat lost.length ∧
      (s.emitted.map (fun x => x.event.1) ++ lost).Perm (List.range s.tracked.accepted.length) ∧
      (lost = [] → s.emitted.map (fun x => x.event.2) = s.tracked.accepted) := by
  obtain ⟨lost, hdropped, hplaces, hnamed⟩ := linked_accounts h hq hd
  refine ⟨lost, hdropped, hplaces, ?_⟩
  rintro rfl
  rw [List.append_nil] at hplaces
  have hnumbers : s.emitted.map (fun x => x.event.1) = List.range s.tracked.accepted.length :=
    hplaces.eq_of_pairwise' ((emitted_sorted h).1.imp le_of_lt) (List.pairwise_lt_range.imp le_of_lt)
  exact events_of_numbers hnumbers hnamed

theorem queue_empty_at_end {cfg : SyswatchConfig} {memory : Nat → EventQueueEntry} {clock : ℚ}
    {output : OutputState Handed} {labels : List Label} {s : Process}
    (hrun : run (step cfg) (.start memory clock output) labels = some s) (hd : s.main = .destroy)
    (horderly : OrderlyRun cfg (.start memory clock output) labels) :
    queueSize s.tracked.queue = 0 ∧ s.delivery = .finished := by
  have h₀ := start_linked memory clock output
  have hfinished := (run_linked h₀ hrun).delivery (hd ▸ rfl)
  exact ⟨(run_settled h₀ nofun hrun horderly (hfinished ▸ rfl)).1, hfinished⟩

/-- **Every accepted event is posted once**, in its order, by an orderly run that
reaches `queue_destroy`, if nothing was overwritten in the queue, memory lasts
and no batch ran out of attempts. What was overwritten is all that is missing. -/
theorem posted_exactly_once {init : InitEnv} {outputCfg : Option SyswatchConfig}
    {g output : OutputState Handed} (hinit : outputInit Handed init outputCfg g = (0, none, output))
    (hmode : output.mode = .httpPost) {cfg : SyswatchConfig} {memory : Nat → EventQueueEntry}
    {clock : ℚ} {labels : List Label} {s : Process}
    (hrun : run (step cfg) (.start memory clock output) labels = some s) (hd : s.main = .destroy)
    (horderly : OrderlyRun cfg (.start memory clock output) labels) (hg : ∀ l ∈ labels, Granted l)
    (ha : Answered s) :
    ∃ lost : List Nat, queueDroppedCount s.tracked.queue = UInt64.ofNat lost.length ∧
      ((batched s).map (fun x => x.event.1) ++ lost).Perm (List.range s.tracked.accepted.length) ∧
      (lost = [] → (batched s).map (fun x => x.event.2) = s.tracked.accepted) := by
  have hcomplete := run_complete (start_complete hinit hmode memory clock) hrun hg ha
  obtain ⟨hq, hfinished⟩ := queue_empty_at_end hrun hd horderly
  rw [hcomplete.ended hd]
  exact emitted_accounts hcomplete.linked hq hfinished

/-! ## What the receiver reads -/

theorem of_mem_intersperse {α : Type} {x sep : α} : ∀ {l : List α}, x ∈ l.intersperse sep → x = sep ∨ x ∈ l
  | [_], h => .inr h
  | a :: b :: l, h => by
    rw [List.intersperse_cons_cons, List.mem_cons, List.mem_cons] at h
    rcases h with rfl | rfl | h
    · exact .inr List.mem_cons_self
    · exact .inl rfl
    · exact (of_mem_intersperse h).imp_right (List.mem_cons_of_mem a)

theorem postBody_printable {texts : List Bytes} (h : ∀ x ∈ texts, ∀ b ∈ x, 32 ≤ b) :
    ∀ b ∈ postBody texts, 32 ≤ b := by
  simp only [postBody, List.intercalate, List.forall_mem_cons, List.forall_mem_append,
    List.mem_flatten]
  refine ⟨by decide, ?_, by decide⟩
  rintro b ⟨part, hpart, hb⟩
  rcases of_mem_intersperse hpart with rfl | hmem
  · rw [List.mem_singleton.mp hb]
    decide
  · exact h part hmem b hb

/-- The text of each event, with what it stands for. -/
theorem texts_values {batch : List Handed}
    (h : ∀ x ∈ batch, ∃ t members, IsEventText x.text t members) :
    ∃ values, List.Forall₂ (fun x members => ∃ t, IsEventText x.text t members) batch values := by
  induction batch with
  | nil => exact ⟨[], .nil⟩
  | cons x batch ih =>
    rw [List.forall_mem_cons] at h
    obtain ⟨t, members, htext⟩ := h.1
    obtain ⟨values, hvalues⟩ := ih h.2
    exact ⟨members :: values, .cons ⟨t, htext⟩ hvalues⟩

/-- In related lists each element has its partner. -/
theorem related {α β : Type} {R : α → β → Prop} {l : List α} {l' : List β} (h : List.Forall₂ R l l') :
    (∀ a ∈ l, ∃ b ∈ l', R a b) ∧ ∀ b ∈ l', ∃ a ∈ l, R a b := by
  induction h with
  | nil => simp
  | @cons a b l l' hab _ ih =>
    simp only [List.forall_mem_cons]
    refine ⟨⟨⟨b, List.mem_cons_self, hab⟩, fun x hx => ?_⟩, ⟨a, List.mem_cons_self, hab⟩, fun y hy => ?_⟩
    · obtain ⟨y, hy, hxy⟩ := ih.1 x hx
      exact ⟨y, List.mem_cons_of_mem b hy, hxy⟩
    · obtain ⟨x, hx, hxy⟩ := ih.2 y hy
      exact ⟨x, List.mem_cons_of_mem a hx, hxy⟩

theorem body_values {batch : List Handed} (hne : batch ≠ [])
    (h : ∀ x ∈ batch, ∃ t members, IsEventText x.text t members) :
    ∃ values, List.Forall₂ (fun x members => ∃ t, IsEventText x.text t members) batch values ∧
      ∀ limits : Lib.PyLimits.Limits, 5 ≤ limits.depth →
        limits.loads (postBody (batch.map Handed.text)) = .ok (.list (values.map .dict)) := by
  obtain ⟨values, hvalues⟩ := texts_values h
  have hobjects : List.Forall₂ BatchBody.JsonObject (batch.map Handed.text) values := by
    rw [List.forall₂_map_left_iff]
    exact hvalues.imp fun _ _ ⟨_, htext⟩ => htext.object
  have hprint : ∀ x ∈ batch.map Handed.text, ∀ b ∈ x, 32 ≤ b := by
    simp only [List.forall_mem_map]
    intro x hx
    obtain ⟨t, members, htext⟩ := h x hx
    exact htext.printable
  have h0 : (0 : UInt8) ∉ postBody (batch.map Handed.text) := fun h0 =>
    absurd (postBody_printable hprint 0 h0) (by decide)
  have hloads := BatchBody.loads_postBody h0 (by simpa using hne) hobjects
  refine ⟨values, hvalues, fun limits hdepth => Lib.PyLimits.Limits.loads_eq_ok.mpr ⟨hloads, ?_⟩⟩
  refine Lib.PyLimits.Fits.admits ⟨by decide, Lib.PyLimits.fitsItems_iff.mpr ?_⟩ hdepth
  rw [List.forall_mem_map]
  intro members hmembers
  obtain ⟨x, -, t, htext⟩ := (related hvalues).2 members hmembers
  exact htext.fits

/-- A batch of event texts, and its body. -/
structure Legible (post : Post Handed) : Prop where
  proper : post.batch ≠ [] ∧ post.body = postBody (post.batch.map Handed.text)
  texts : ∀ x ∈ post.batch, ∃ t members, IsEventText x.text t members

theorem emitted_accepted {s : Process} (h : Linked s) : ∀ x ∈ s.emitted, x.event.2 ∈ s.tracked.accepted :=
  fun x hx => List.mem_of_getElem? ((emitted_sorted h).2 x hx)

theorem legible_posts {s : Process} (hk : Kept s) (ht : Texted s) : ∀ r ∈ s.posts, Legible r.post := by
  intro r hr
  refine ⟨hk.proper r hr, fun x hx => ht.accepted _ (emitted_accepted hk.linked x ?_)⟩
  have hx' : x ∈ batched s := List.mem_flatMap.mpr ⟨r, hr, hx⟩
  exact hk.order.subset (List.mem_append_left _ hx')

/-- **The texts of a run**: every accepted event is one line of UTF-8 that Python
reads as an object with the fields of an event, and every body that is posted it
reads as the list of the objects of its batch, on any stack with room for five brackets. -/
theorem event_texts {init : InitEnv} {outputCfg : Option SyswatchConfig} {g output : OutputState Handed}
    (hinit : outputInit Handed init outputCfg g = (0, none, output)) {cfg : SyswatchConfig}
    {memory : Nat → EventQueueEntry} {clock : ℚ} {labels : List Label} {s : Process}
    (hrun : run (step cfg) (.start memory clock output) labels = some s)
    (hclean : ∀ l ∈ labels, CleanLabel l) :
    (∀ entry ∈ s.tracked.accepted, ∃ t members, IsEventText (textOf entry) t members) ∧
      (∀ x ∈ s.emitted, x.event.2 ∈ s.tracked.accepted) ∧
      ∀ r ∈ s.posts, ∃ values,
        List.Forall₂ (fun x members => ∃ t, IsEventText x.text t members) r.post.batch values ∧
        ∀ limits : Lib.PyLimits.Limits, 5 ≤ limits.depth →
          limits.loads r.post.body = .ok (.list (values.map .dict)) := by
  have ht : Texted s := run_texted (start_texted memory clock output) hclean hrun
  have hk : Kept s := run_preserves hrun (start_kept hinit memory clock) fun _ _ _ hk hs =>
    step_kept hk (step_cases hs)
  refine ⟨ht.accepted, emitted_accepted hk.linked, fun r hr => ?_⟩
  obtain ⟨⟨hne, hbody⟩, htexts⟩ := legible_posts hk ht r hr
  rw [hbody]
  exact body_values hne htexts

/-! ## A run with three batches -/

theorem measured_run : ∃ s, run (step fourEach) beginFour measuredRun = some s ∧ s.main = .destroy ∧
    s.tracked.accepted.length = 7 ∧ s.posts.map (fun r => (r.post.attempts.last, r.post.batch.length)) =
      [(.delivered, 1), (.delivered, 4), (.delivered, 2)] := by
  have h : (run (step fourEach) beginFour measuredRun).map (fun s => (s.main, s.tracked.accepted.length,
      s.posts.map fun r => (r.post.attempts.last, r.post.batch.length))) =
      some (.destroy, 7, [(.delivered, 1), (.delivered, 4), (.delivered, 2)]) := by decide +kernel
  obtain ⟨s, hs, he⟩ := Option.map_eq_some_iff.mp h
  obtain ⟨hmain, he⟩ := Prod.mk.inj he
  obtain ⟨hlen, hposts⟩ := Prod.mk.inj he
  exact ⟨s, hs, hmain, hlen, hposts⟩

theorem beginFour_init : outputInit Handed ⟨true, none, none, true, true⟩ (some fourEach) (.zero _) =
    (0, none, beginFour.output) := rfl

theorem posted_in_order_example : ∃ s, run (step fourEach) beginFour measuredRun = some s ∧
    (batched s).length = 7 ∧ ((batched s).map fun x => x.event.1).Pairwise (· < ·) ∧
      ∀ x ∈ batched s, s.tracked.accepted[x.event.1]? = some x.event.2 := by
  obtain ⟨s, hs, -, -, hposts⟩ := measured_run
  obtain ⟨horder, hnamed, -⟩ := posted_in_order beginFour_init hs
  refine ⟨s, hs, ?_, horder, hnamed⟩
  have hlengths := congrArg (List.map Prod.snd) hposts
  rw [List.map_map] at hlengths
  rw [batched, List.length_flatMap]
  exact congrArg List.sum hlengths

theorem measuredRun_granted : ∀ l ∈ measuredRun, Granted l := by
  simp [measuredRun, collectsOnce, deliversAll, emitsAt, stops, wakesUp, joins, Granted, SuppliedEmit, Supplied,
    quietEnv]

theorem posted_exactly_once_example : ∃ s, run (step fourEach) beginFour measuredRun = some s ∧
    ∃ lost : List Nat, queueDroppedCount s.tracked.queue = UInt64.ofNat lost.length ∧
      ((batched s).map (fun x => x.event.1) ++ lost).Perm (List.range 7) ∧
      (lost = [] → (batched s).map (fun x => x.event.2) = s.tracked.accepted) := by
  obtain ⟨s, hs, hmain, hlen, hposts⟩ := measured_run
  have ha : Answered s := by
    intro r hr hlast
    have hmem := List.mem_map_of_mem (f := fun r : Posted => (r.post.attempts.last, r.post.batch.length)) hr
    rw [hposts, hlast] at hmem
    simp at hmem
  obtain ⟨lost, hdropped, hplaces, hall⟩ := posted_exactly_once beginFour_init rfl hs hmain
    (by decide +kernel) measuredRun_granted ha
  exact ⟨s, hs, lost, hdropped, hlen ▸ hplaces, hall⟩

theorem someStamp_clean : CleanStamp someStamp :=
  .of_escaped (show (0 : UInt8) ∉ ascii "myhost" by decide) ⟨py "myhost", by decide, by decide⟩
    (not_cut_of_fits (by decide)) rfl (by decide)

theorem someReads_clean (n : UInt64) : CleanReads (someReads n) := by
  have hdisk : CleanName (ascii "sda") := ⟨by decide, utf8_of_ascii (by decide)⟩
  have hnet : CleanName (ascii "eth0") := ⟨by decide, utf8_of_ascii (by decide)⟩
  constructor <;> intro snapshot hs d hd <;> cases hs <;> cases List.mem_singleton.mp hd
  · exact hdisk
  · exact hnet

theorem measuredRun_clean : ∀ l ∈ measuredRun, CleanLabel l := by
  simp [measuredRun, collectsOnce, deliversAll, emitsAt, stops, wakesUp, joins, CleanLabel, CleanInput,
    someReads_clean, someStamp_clean]

theorem event_texts_example : ∃ s, run (step fourEach) beginFour measuredRun = some s ∧
    s.tracked.accepted.length = 7 ∧ s.posts.length = 3 ∧
    (∀ entry ∈ s.tracked.accepted, ∃ t members, IsEventText (textOf entry) t members) ∧
    ∀ r ∈ s.posts, ∃ values,
      List.Forall₂ (fun x members => ∃ t, IsEventText x.text t members) r.post.batch values ∧
      ∀ limits : Lib.PyLimits.Limits, 5 ≤ limits.depth →
        limits.loads r.post.body = .ok (.list (values.map .dict)) := by
  obtain ⟨s, hs, -, hlen, hposts⟩ := measured_run
  obtain ⟨htexts, -, hbodies⟩ := event_texts beginFour_init hs measuredRun_clean
  refine ⟨s, hs, hlen, ?_, htexts, hbodies⟩
  have := congrArg List.length hposts
  rwa [List.length_map] at this

end Syswatch.PostedEvents
