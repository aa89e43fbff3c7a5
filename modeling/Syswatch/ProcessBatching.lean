import Syswatch.OutputTriggers
import Syswatch.ProcessShutdown

/-! # Which batches go out before shutdown

The delivery thread flushes the output behind every batch it has taken from the
queue, whatever `batch_size` and `batch_interval_seconds` say. Every other
batch that is posted before `g_stop` is set is full or overdue. -/

namespace Syswatch.ProcessBatching
open Lib.CText Lib.Machine Process OutputDelivery OutputTriggers ProcessShutdown

/-- Posted `batch_interval_seconds` after the first of its events was buffered. -/
def Waited (interval : Int32) (r : Posted) : Prop :=
  ∃ e rest, r.post.batch = e :: rest ∧ (interval.toInt : ℚ) ≤ r.time - e.time

/-- The clock of the batch was started when the first of its events was buffered, or later. -/
def StartedBehind (r : Posted) : Prop :=
  ∃ e rest, r.post.batch = e :: rest ∧ e.time ≤ r.startedAt.seconds

/-- The rule for a batch. Its age is the one that `batch_age_seconds` computes, since its
clock was started, which is not before its first event was buffered if every event
before could be `stored`. -/
def Ruled (size interval : Int32) (stored : Prop) (r : Posted) : Prop :=
  (r.post.batch.length : Int) = size.toInt ∨
    (∃ now ∈ r.ageNow, (interval.toInt : ℚ) ≤ ageAt r.startedAt now ∧ (stored → StartedBehind r)) ∨
    r.origin = .drained

/-- The clock does not run for an empty batch, and else was started no earlier
than the first event was buffered. -/
structure Dated (clock : ℚ) (o : OutputState Handed) : Prop where
  idle : o.batchItems = [] → o.batchStarted = false
  started : ∀ e rest, o.batchItems = e :: rest →
    e.time ≤ clock ∧ (o.batchStarted = true → e.time ≤ o.batchStartedAt.seconds)

theorem Dated.later {clock now : ℚ} {o : OutputState Handed} (h : Dated clock o)
    (hc : clock ≤ now) : Dated now o where
  idle := h.idle
  started e rest he := ⟨(h.started e rest he).1.trans hc, (h.started e rest he).2⟩

theorem dated_nil {clock : ℚ} {o : OutputState Handed} (h : o.batchItems = [])
    (hs : o.batchStarted = false) : Dated clock o where
  idle _ := hs
  started e rest he := by rw [h] at he; cases he

theorem clocked_le {clock now : ℚ} {env : EmitEnv} (h : Clocked clock env now) : clock ≤ now :=
  h.1.trans (h.2.1.trans h.2.2)

theorem clocked_start {clock now : ℚ} {env : EmitEnv} {t : Timespec} (h : Clocked clock env now)
    (ht : env.startNow = some t) : clock ≤ t.seconds ∧ t.seconds ≤ now := by
  obtain ⟨h₁, h₂, h₃⟩ := h
  rw [ht] at h₂ h₃
  exact ⟨h₁.trans h₂, h₃⟩

/-- The time given to a line is not after the call's return. -/
theorem handed_time_le {clock now : ℚ} {env : EmitEnv} (h : Clocked clock env now) :
    (env.startNow.map Timespec.seconds).getD now ≤ now := by
  cases ht : env.startNow with
  | none => exact le_rfl
  | some t => exact (clocked_start h ht).2

/-- A batch is overdue by the clock that was started for it. -/
theorem overdue_age {env : EmitEnv} {o : OutputState Handed} (h : Steady o) (ho : Overdue env.ageNow o) :
    ∃ now ∈ env.ageNow, (o.batchIntervalSeconds.toInt : ℚ) ≤ ageAt o.batchStartedAt now := by
  obtain ⟨hcount, hstarted, hage⟩ := ho
  unfold batchAgeSeconds at hage
  rw [hstarted] at hage
  cases hnow : env.ageNow with
  | none =>
    -- without a reading the age is 0, and the interval is positive
    have hpos : (0 : ℚ) < o.batchIntervalSeconds.toInt := by exact_mod_cast h.interval
    rw [hnow] at hage
    exact absurd hage (not_le.mpr hpos)
  | some t =>
    rw [hnow] at hage
    exact ⟨t, rfl, hage⟩

theorem overdue_started {clock : ℚ} {now : Option Timespec} {o : OutputState Handed} (hd : Dated clock o)
    (ho : Overdue now o) : ∃ e rest, o.batchItems = e :: rest ∧ e.time ≤ o.batchStartedAt.seconds := by
  have hne : o.batchItems ≠ [] := fun hi => ho.1 (List.length_eq_zero_iff.mpr hi)
  obtain ⟨e, rest, he⟩ := List.exists_cons_of_ne_nil hne
  exact ⟨e, rest, he, (hd.started e rest he).2 ho.2.1⟩

theorem flushes_dated {clock : ℚ} {env : EmitEnv} {o t : OutputState Handed}
    {posts : List (Post Handed)} (h : Flushes Handed.text env o posts t) (hd : Dated clock o) :
    Dated clock t := by
  cases h with
  | nothing => exact hd
  | full hne hf => exact dated_nil rfl rfl
  | overdue hne ho => exact dated_nil rfl rfl

/-- The first event of a batch starts its clock, or a later one does. -/
theorem makesRoom_dated {clock now : ℚ} {env : EmitEnv} {t u : OutputState Handed} {x : Handed}
    (hu : MakesRoom env.startNow t u) (hd : Dated clock t) (hc : Clocked clock env now)
    (hx : x.time = (env.startNow.map Timespec.seconds).getD now) :
    Dated now { u with batchItems := u.batchItems ++ [x] } := by
  refine ⟨fun hi => by simp at hi, fun e rest he => ?_⟩
  simp only [hu.items] at he
  simp only [hu.started, hu.startedAt, Bool.or_eq_true]
  cases hitems : t.batchItems with
  | nil =>
    rw [hitems] at he
    cases he
    rw [hd.idle hitems]
    refine ⟨hx ▸ handed_time_le hc, fun hs => ?_⟩
    obtain ⟨r, hr⟩ := Option.isSome_iff_exists.mp (hs.resolve_left Bool.false_ne_true)
    rw [hx, hr]
    exact le_rfl
  | cons first others =>
    rw [hitems] at he
    obtain ⟨rfl, -⟩ := List.cons.inj he
    obtain ⟨hclock, hstarted⟩ := hd.started first others hitems
    refine ⟨hclock.trans (clocked_le hc), fun hs => ?_⟩
    by_cases hrunning : t.batchStarted = true
    · rw [if_pos hrunning]
      exact hstarted hrunning
    · obtain ⟨r, hr⟩ := Option.isSome_iff_exists.mp (hs.resolve_left hrunning)
      rw [if_neg hrunning, hr]
      exact hclock.trans (clocked_start hc hr).1

theorem emits_dated {clock now : ℚ} {env : EmitEnv} {o o' : OutputState Handed} {x : Handed}
    {posts : List (Post Handed)} (h : Emits Handed.text env o x posts o') (hd : Dated clock o)
    (hc : Clocked clock env now) (hx : x.time = (env.startNow.map Timespec.seconds).getD now)
    (hstores : env.realloc = true ∧ env.strdup = true) : Dated now o' := by
  cases h with
  | gaveUp h => exact (flushes_dated h hd).later (clocked_le hc)
  | noMemory h hfail hu => simp [hstores] at hfail
  | waits h hu hroom => exact makesRoom_dated hu (flushes_dated h hd) hc hx
  | fills h hu hroom => exact dated_nil rfl rfl

/-! ## Every run -/

/-- What the steps keep as long as the output is open. -/
structure Open (size interval : Int32) (stored : Prop) (s : Process) : Prop where
  steady : Steady s.output
  size : s.output.batchSize = size
  interval : s.output.batchIntervalSeconds = interval
  dated : stored → Dated s.clock s.output

theorem Open.keeps {size interval : Int32} {stored stored' : Prop} {s s' : Process}
    (h : Open size interval stored s) (hs : Steady s'.output)
    (hset : SameSettings s.output s'.output) (hd : stored' → Dated s'.clock s'.output) :
    Open size interval stored' s' where
  steady := hs
  size := hset.size.trans h.size
  interval := hset.interval.trans h.interval
  dated := hd

structure Batching (size interval : Int32) (stored : Prop) (s : Process) : Prop where
  linked : Linked s
  isOpen : s.output.mode = .httpPost → Open size interval stored s
  posts : ∀ r ∈ s.posts, r.gStop = false → Ruled size interval stored r

/-- `realloc` and `strdup` succeed. -/
def Stores : Label → Prop
  | .delivery (.emit env _) => env.realloc = true ∧ env.strdup = true
  | _ => True

theorem Ruled.mono {size interval : Int32} {stored stored' : Prop} {r : Posted}
    (h : Ruled size interval stored r) (hs : stored' → stored) : Ruled size interval stored' r := by
  rcases h with hfull | ⟨now, hnow, hage, hstarted⟩ | hdrained
  · exact .inl hfull
  · exact .inr (.inl ⟨now, hnow, hage, fun h' => hstarted (hs h')⟩)
  · exact .inr (.inr hdrained)

theorem note_posts {size interval : Int32} {stored : Prop} {s : Process} {origin : Origin}
    {ageNow : Option Timespec} (posts : List (Post Handed))
    (h : ∀ r ∈ s.posts, r.gStop = false → Ruled size interval stored r)
    (hnew : ∀ p ∈ posts, s.gStop = false → ∀ time, Ruled size interval stored
      ⟨p, origin, s.gStop, time, s.output.batchStartedAt, ageNow⟩) :
    ∀ r ∈ s.note origin ageNow (posts.map Effect.post), r.gStop = false →
      Ruled size interval stored r := by
  intro r hr
  rw [note, postsOf_map] at hr
  rcases List.mem_append.mp hr with hr | hr
  · exact h r hr
  · obtain ⟨p, hp, rfl⟩ := List.mem_map.mp hr
    exact fun hg => hnew p hp hg _

/-- In the other modes nothing is posted and the output stays as it is. -/
theorem outputEmitEvent_other (env : EmitEnv) {o : OutputState Handed} (h : o.mode ≠ .httpPost)
    (x : Handed) : postsOf (outputEmitEvent Handed.text env o (some x)).2.1 = [] ∧
      (outputEmitEvent Handed.text env o (some x)).2.2 = o := by
  rw [outputEmitEvent]
  cases hm : o.mode with
  | stdout => exact ⟨rfl, rfl⟩
  | file => cases hf : o.fileHandle <;> exact ⟨rfl, rfl⟩
  | httpPost => exact absurd hm h

theorem outputFlush_other (env : PostEnv) {o : OutputState Handed} (h : o.mode ≠ .httpPost) :
    (outputFlush Handed.text env o).2 = ([], o) := by
  rw [outputFlush, if_neg h]

theorem emit_batching {size interval : Int32} {stored : Prop} {s s' : Process} {env : EmitEnv}
    {now : ℚ} {line : Handed} (h : Batching size interval stored s) (hc : Clocked s.clock env now)
    (hline : line.time = (env.startNow.map Timespec.seconds).getD now) (hl : Linked s')
    (hclock : s'.clock = now)
    (hout : s'.output = (outputEmitEvent Handed.text env s.output (some line)).2.2)
    (hposts : s'.posts = s.note .emitting env.ageNow
      (outputEmitEvent Handed.text env s.output (some line)).2.1) :
    Batching size interval (stored ∧ env.realloc = true ∧ env.strdup = true) s' := by
  by_cases hmode : s.output.mode = .httpPost
  · have ho := h.isOpen hmode
    obtain ⟨posts, o', he, hemits⟩ := outputEmitEvent_cases Handed.text env ho.steady line
    rw [he] at hout hposts
    subst hclock
    refine ⟨hl, fun _ => ?_, ?_⟩
    · have hd : stored ∧ env.realloc = true ∧ env.strdup = true → Dated s'.clock o' :=
        fun hs => emits_dated hemits (ho.dated hs.1) hc hline hs.2
      exact ho.keeps (hout ▸ hemits.steady ho.steady) (hout ▸ hemits.settings) (hout ▸ hd)
    · rw [hposts]
      refine note_posts posts (fun r hr hg => (h.posts r hr hg).mono And.left) fun p hp _ time => ?_
      rcases hemits.triggers p hp with hfull | ⟨hbatch, hoverdue⟩
      · exact .inl (hfull.trans (congrArg Int32.toInt ho.size))
      · obtain ⟨reading, hreading, hage⟩ := overdue_age ho.steady hoverdue
        refine .inr (.inl ⟨reading, hreading, ho.interval ▸ hage, fun hs => ?_⟩)
        obtain ⟨e, rest, hitems, hstarted⟩ := overdue_started (ho.dated hs.1) hoverdue
        exact ⟨e, rest, hbatch.trans hitems, hstarted⟩
  · obtain ⟨hnone, hsame⟩ := outputEmitEvent_other env hmode line
    rw [hsame] at hout
    refine ⟨hl, fun hm => absurd (hout ▸ hm) hmode, ?_⟩
    rw [hposts, note, hnone, List.map_nil, List.append_nil]
    exact fun r hr hg => (h.posts r hr hg).mono And.left

theorem flush_batching {size interval : Int32} {stored : Prop} {s s' : Process} {env : PostEnv}
    {origin : Origin} (h : Batching size interval stored s)
    (horigin : s.gStop = false → origin = .drained) (hl : Linked s') (hclock : s'.clock = s.clock)
    (hout : s'.output = (outputFlush Handed.text env s.output).2.2)
    (hposts : s'.posts = s.note origin none (outputFlush Handed.text env s.output).2.1) :
    Batching size interval stored s' := by
  by_cases hmode : s.output.mode = .httpPost
  · have ho := h.isOpen hmode
    obtain ⟨posts, o', he, ho'⟩ := outputFlush_cases Handed.text env ho.steady
    rw [he] at hout hposts
    refine ⟨hl, fun _ => ?_, ?_⟩
    · rcases ho' with rfl | rfl
      · exact ho.keeps (hout ▸ ho.steady) (hout ▸ ⟨rfl, rfl⟩) (hclock ▸ hout ▸ ho.dated)
      · exact ho.keeps (hout ▸ ho.steady.freed) (hout ▸ ⟨rfl, rfl⟩)
          (hout ▸ fun _ => dated_nil rfl rfl)
    · rw [hposts]
      exact note_posts posts h.posts fun p _ hg _ => .inr (.inr (horigin hg))
  · have hnone := outputFlush_other env hmode
    rw [hnone] at hout hposts
    change s'.output = s.output at hout
    refine ⟨hl, fun hm => absurd (hout ▸ hm) hmode, ?_⟩
    rw [hposts]
    exact note_posts [] h.posts fun p hp => absurd hp List.not_mem_nil

/-- A step that leaves the output alone. -/
theorem Batching.frame {size interval : Int32} {stored : Prop} {s s' : Process}
    (h : Batching size interval stored s) (hl : Linked s') (hout : s'.output = s.output)
    (hposts : s'.posts = s.posts) (hclock : s.clock ≤ s'.clock) :
    Batching size interval stored s' where
  linked := hl
  isOpen hm := by
    have ho := h.isOpen (hout ▸ hm)
    refine ho.keeps (hout ▸ ho.steady) (hout ▸ ⟨rfl, rfl⟩) fun hs => ?_
    rw [hout]
    exact (ho.dated hs).later hclock
  posts := hposts ▸ h.posts

theorem Batching.mono {size interval : Int32} {stored stored' : Prop} {s : Process}
    (h : Batching size interval stored s) (hs : stored' → stored) :
    Batching size interval stored' s where
  linked := h.linked
  isOpen hm := (h.isOpen hm).keeps (h.isOpen hm).steady ⟨rfl, rfl⟩ fun h' => (h.isOpen hm).dated (hs h')
  posts r hr hg := (h.posts r hr hg).mono hs

theorem step_batching {cfg : SyswatchConfig} {size interval : Int32} {stored : Prop}
    {s s' : Process} {l : Label} (h : Batching size interval stored s) (hm : Move cfg s l s') :
    Batching size interval (stored ∧ Stores l) s' := by
  have hlinked := step_linked h.linked hm
  cases hm with
  | signal => exact (h.frame hlinked rfl rfl le_rfl).mono And.left
  | tick now hc => exact (h.frame hlinked rfl rfl hc).mono And.left
  | collector hs hc he => exact (h.frame hlinked rfl rfl le_rfl).mono And.left
  | delivery hd =>
    cases hd with
    | emit event rest env now line hp hc hline =>
      exact emit_batching h hc (hline ▸ rfl) hlinked rfl rfl rfl
    | drained env hp => exact (flush_batching h (fun _ => rfl) hlinked rfl rfl rfl).mono And.left
    | final env hp =>
      have hstop : s.gStop = true := h.linked.stopping (hp ▸ rfl)
      refine (flush_batching h (fun hg => ?_) hlinked rfl rfl rfl).mono And.left
      rw [hstop] at hg
      cases hg
    | _ => exact (h.frame hlinked rfl rfl le_rfl).mono And.left
  | main hc =>
    have hclosed : ∀ {env next}, s.gStop = true → Linked (s.shutdownOutput env next) →
        Batching size interval stored (s.shutdownOutput env next) := by
      intro env next hstop hl'
      refine ⟨hl', nofun, fun r hr hg => ?_⟩
      rcases List.mem_append.mp hr with hr | hr
      · exact h.posts r hr hg
      · obtain ⟨p, -, rfl⟩ := List.mem_map.mp hr
        rw [hstop] at hg
        cases hg
    cases hc with
    | shutdown env hm => exact (hclosed (h.linked.main (hm ▸ rfl)) hlinked).mono And.left
    | failedShutdown env hm => exact (hclosed (h.linked.main (hm ▸ rfl)) hlinked).mono And.left
    | _ => exact (h.frame hlinked rfl rfl le_rfl).mono And.left

theorem start_batching {init : InitEnv} {cfg : Option SyswatchConfig} {g output : OutputState Handed}
    (hinit : outputInit Handed init cfg g = (0, none, output)) (hmode : output.mode = .httpPost)
    (memory : Nat → EventQueueEntry) (clock : ℚ) (stored : Prop) :
    Batching output.batchSize output.batchIntervalSeconds stored (.start memory clock output) := by
  obtain ⟨hready, hempty, hstarted⟩ := outputInit_ready hinit hmode
  exact ⟨start_linked memory clock output,
    fun _ => ⟨.of_ready hready, rfl, rfl, fun _ => dated_nil hempty hstarted⟩,
    fun r hr => absurd hr List.not_mem_nil⟩

/-- **Batches posted before `g_stop` is set** hold `batch_size` events, or are at least
`batch_interval_seconds` old, in doubles, by a clock that was started no earlier than
their first event was buffered unless an event could not be stored, or are flushed by the
delivery thread behind a batch it took from the queue. -/
theorem batches_before_stop {cfg : SyswatchConfig} {init : InitEnv} {outputCfg : Option SyswatchConfig}
    {g output : OutputState Handed} (hinit : outputInit Handed init outputCfg g = (0, none, output))
    (hmode : output.mode = .httpPost) {memory : Nat → EventQueueEntry} {clock : ℚ}
    {labels : List Label} {s : Process}
    (hrun : run (step cfg) (.start memory clock output) labels = some s) :
    ∀ r ∈ s.posts, r.gStop = false →
      Ruled output.batchSize output.batchIntervalSeconds (∀ l ∈ labels, Stores l) r := by
  have hinv := run_invariant
    (P := fun ls t => Batching output.batchSize output.batchIntervalSeconds (∀ l ∈ ls, Stores l) t)
    (start_batching hinit hmode memory clock _) (fun ls t l u _ ht hu =>
      (step_batching ht (step_cases hu)).mono fun hs =>
        ⟨fun l' h' => hs l' (List.mem_append_left _ h'),
          hs l (List.mem_append_right _ (List.mem_singleton_self l))⟩) hrun
  exact hinv.posts

/-- The settings of the example, but for the size of a batch. -/
def fourEach : SyswatchConfig := { httpConfig with outputBatchSize := 4 }

def beginFour : Process := .start (fun _ => blankEntry) 0 (httpStart Handed fourEach)

/-- A batch that is old enough, a full one, and what is left behind the loop. -/
theorem batches_before_stop_example :
    ∃ s, run (step fourEach) beginFour (collectsOnce ++ deliversAll) = some s ∧
      s.posts.map (fun r => (r.origin, r.gStop, r.post.batch.map Handed.time)) =
        [(.emitting, false, [0]), (.emitting, false, [3, 3, 3, 3]), (.drained, false, [3, 3])] ∧
      ∀ r ∈ s.posts, r.gStop = false → Ruled 4 2 (∀ l ∈ collectsOnce ++ deliversAll, Stores l) r := by
  have h : (run (step fourEach) beginFour (collectsOnce ++ deliversAll)).map (fun s =>
      s.posts.map fun r => (r.origin, r.gStop, r.post.batch.map Handed.time)) =
      some [(.emitting, false, [0]), (.emitting, false, [3, 3, 3, 3]), (.drained, false, [3, 3])] := by
    decide +kernel
  obtain ⟨s, hs, hposts⟩ := Option.map_eq_some_iff.mp h
  exact ⟨s, hs, hposts, @batches_before_stop _ ⟨true, none, none, true, true⟩ (some fourEach) (.zero _) _
    rfl rfl _ _ _ _ hs⟩

/-- Both threads are about to run, with the settings of the example. -/
def beginHttp : Process := .start (fun _ => blankEntry) 0 (httpStart Handed httpConfig)

/-- The collector's first event is taken from the queue and delivered. -/
def deliverOne : List Label :=
  [.main (.create true), .collector (.stamp someStamp) none, .delivery .proceed, .delivery .proceed,
    .delivery (.emit emitEnv 0), .delivery (.flush quietEnv)]

/-- One event goes out alone and at once, with a `batch_size` of 50 and a
`batch_interval_seconds` of 2, and no signal has arrived. -/
theorem single_event_posted :
    ∃ s, run (step httpConfig) beginHttp deliverOne = some s ∧ s.gStop = false ∧
      (∀ l ∈ deliverOne, Stores l) ∧ ∃ r ∈ s.posts, r.gStop = false ∧
        (r.post.batch.length : Int) ≠ beginHttp.output.batchSize.toInt ∧
        ¬ Waited beginHttp.output.batchIntervalSeconds r := by
  have h : (run (step httpConfig) beginHttp deliverOne).map (fun s =>
      (s.gStop, s.posts.map fun r => (r.gStop, r.time, r.post.batch.map Handed.time))) =
      some (false, [(false, 0, [0])]) := by decide +kernel
  obtain ⟨s, hs, he⟩ := Option.map_eq_some_iff.mp h
  obtain ⟨hstop, hposts⟩ := Prod.mk.inj he
  obtain ⟨r, hr, hpost⟩ : ∃ r ∈ s.posts,
      (r.gStop, r.time, r.post.batch.map Handed.time) = (false, 0, [0]) :=
    List.mem_map.mp (hposts ▸ List.mem_singleton_self _)
  obtain ⟨hgStop, htime, hbatch⟩ : r.gStop = false ∧ r.time = 0 ∧
      r.post.batch.map Handed.time = [0] := by simpa using hpost
  have hlen : r.post.batch.length = 1 := by
    have := congrArg List.length hbatch
    rwa [List.length_map] at this
  refine ⟨s, hs, hstop, by simp [deliverOne, Stores, emitEnv], r, hr, hgStop, ?_, ?_⟩
  · rw [hlen]
    decide
  · rintro ⟨e, rest, hitems, hwait⟩
    rw [hitems] at hbatch
    rw [htime, (List.cons.inj hbatch).1] at hwait
    exact absurd hwait (by decide +kernel)

end Syswatch.ProcessBatching
