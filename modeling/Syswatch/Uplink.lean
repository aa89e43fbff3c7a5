import Syswatch.Lib.Retransmission
import Syswatch.ServedEvents
import Syswatch.Startup

/-! # From the collector to the web UI

The process posts its batches to `/events` of the server in `webui/server.py`. A
transfer may fail before or after the server has seen the request, so that a request
may be handled late, or twice after another attempt. -/

namespace Syswatch.Uplink
open Lib.CText Lib.PyJson Lib.PyLimits Lib.Machine Lib.Retransmission EventHistory WebHandler
open Process OutputDelivery ProcessShutdown ProcessBatching EventValues QueuedTexts PostedEvents

/-! ## The server as the receiver -/

/-- What curl sends for a body, `output.url` being the server's `/events`. -/
def request (body : Bytes) : PostRequest :=
  ⟨py "/events", some (Lib.PyFloat.decimalText body.length), body⟩

/-- An interpreter whose stack has room for the brackets of a batch. -/
structure Server extends Host where
  room : 5 ≤ limits.depth

/-- What the sender learns: the status of the response, or that none came. -/
def outcomeOf (served : Served) : HttpOutcome :=
  match served.responses with
  | response :: _ => .response response.status.value
  | [] => .transportError

variable (objects : PyObjects PyValue)

/-- A posted batch reaches `do_POST`. -/
def serve (store : EventStore PyValue) (post : Post Handed) (host : Server) :
    HttpOutcome × EventStore PyValue :=
  let served := doPost objects host.toHost store (request post.body)
  (outcomeOf served, served.store)

/-! ## The process and the network -/

structure Link where
  process : Process
  net : Network (Post Handed) Server (EventStore PyValue)

inductive LinkLabel where
  /-- A step of the process, with the transfers for each batch that it posts. -/
  | process (l : Syswatch.Label) (scripts : List (List (Wire Server)))
  | arrives (i : Nat) (host : Server)

deriving instance DecidableEq for Attempts

/-- The attempts of a post are these transfers. -/
def Transfers (o : OutputState Handed) (post : Post Handed) (replies : List (Option HttpOutcome)) : Prop :=
  replies.length = post.attempts.performed ∧ post.attempts = attemptLoop o.retryBackoffSeconds
    (fun attempt => replies[attempt]?.join.getD .transportError) o.maxPosts 0

instance (o : OutputState Handed) (post : Post Handed) (replies : List (Option HttpOutcome)) :
    Decidable (Transfers o post replies) := inferInstanceAs (Decidable (_ ∧ _))

/-- The transfers of one batch, as `http_post_batch` repeats them. -/
def transferPost (o : OutputState Handed) (net : Network (Post Handed) Server (EventStore PyValue))
    (sending : Post Handed × List (Wire Server)) : Option (Network (Post Handed) Server (EventStore PyValue)) :=
  (net.transfer (serve objects) sending.1 sending.2).bind fun done =>
    if Transfers o sending.1 done.1 then some done.2 else none

/-- The batches that a step of the process has posted. -/
def newPosts (s s' : Process) : List (Post Handed) :=
  (s'.posts.drop s.posts.length).map Posted.post

def step (cfg : SyswatchConfig) (u : Link) : LinkLabel → Option Link
  | .process l scripts =>
    (Process.step cfg u.process l).bind fun process =>
      if (newPosts u.process process).length = scripts.length then
        (run (transferPost objects u.process.output) u.net
          ((newPosts u.process process).zip scripts)).map fun net => ⟨process, net⟩
      else none
  | .arrives i host => (u.net.arrive (serve objects) i host).map fun net => { u with net := net }

/-- The first thread has been created, and the server has received nothing. -/
def Link.start (memory : Nat → EventQueueEntry) (clock : ℚ) (output : OutputState Handed)
    (maxEvents : Nat) (started : ℚ) : Link :=
  ⟨.start memory clock output, .start (.new maxEvents started)⟩

/-- What the process does in a run. -/
def processLabels (labels : List LinkLabel) : List Syswatch.Label :=
  labels.filterMap fun
    | .process l _ => some l
    | .arrives _ _ => none

/-- Nothing is late. -/
def PromptLabel : LinkLabel → Prop
  | .process _ scripts => ∀ script ∈ scripts, Prompt script
  | .arrives _ _ => False

variable {objects}

/-- What a step can do. -/
inductive Move (objects : PyObjects PyValue) (cfg : SyswatchConfig) (u : Link) : LinkLabel → Link → Prop
  | process {l : Syswatch.Label} {scripts : List (List (Wire Server))} {process : Process}
      {net : Network (Post Handed) Server (EventStore PyValue)}
      (hs : Process.step cfg u.process l = some process)
      (hlen : (newPosts u.process process).length = scripts.length)
      (hnet : run (transferPost objects u.process.output) u.net
        ((newPosts u.process process).zip scripts) = some net) :
    Move objects cfg u (.process l scripts) ⟨process, net⟩
  | arrives {i : Nat} {host : Server} {net : Network (Post Handed) Server (EventStore PyValue)}
      (hnet : u.net.arrive (serve objects) i host = some net) :
    Move objects cfg u (.arrives i host) { u with net := net }

theorem step_cases {cfg : SyswatchConfig} {u u' : Link} {l : LinkLabel} (h : step objects cfg u l = some u') :
    Move objects cfg u l u' := by
  cases l with
  | process l scripts =>
    obtain ⟨process, hs, h⟩ := Option.bind_eq_some_iff.mp h
    obtain ⟨hlen, h⟩ := Option.ite_none_right_eq_some.mp h
    obtain ⟨net, hnet, rfl⟩ := Option.map_eq_some_iff.mp h
    exact .process hs hlen hnet
  | arrives i host =>
    obtain ⟨net, hnet, rfl⟩ := Option.map_eq_some_iff.mp h
    exact .arrives hnet

theorem run_process {cfg : SyswatchConfig} {u u' : Link} {labels : List LinkLabel}
    (h : run (step objects cfg) u labels = some u') :
    run (Process.step cfg) u.process (processLabels labels) = some u'.process := by
  refine run_invariant
    (P := fun ls t => run (Process.step cfg) u.process (processLabels ls) = some t.process) rfl ?_ h
  intro ls t l v _ ih hv
  cases step_cases hv with
  | process hs hlen hnet =>
    rw [processLabels, List.filterMap_append]
    exact run_snoc.mpr ⟨_, ih, hs⟩
  | arrives hnet =>
    rw [processLabels, List.filterMap_append, List.filterMap_cons_none rfl, List.filterMap_nil,
      List.append_nil]
    exact ih

/-! ## How attempts end -/

/-- A loop ends with the attempt that delivers its batch, if one does. -/
theorem attemptLoop_delivered (b : Int32) (f : Nat → HttpOutcome) (left attempt : Nat) :
    ((List.range (attemptLoop b f left attempt).performed).map fun i =>
        verdict (f (attempt + i))).count .delivered =
      if (attemptLoop b f left attempt).last = .delivered then 1 else 0 := by
  induction left generalizing attempt with
  | zero => rfl
  | succ left ih =>
    rw [attemptLoop]
    cases hv : verdict (f attempt) with
    | delivered => simp [List.range_succ, hv]
    | refused => simp [List.range_succ, hv]
    | retry =>
      have hrest := ih (attempt + 1)
      simp only [List.range_succ_eq_map, List.map_cons, List.map_map, Nat.add_zero, hv]
      rw [List.count_cons_of_ne (by decide), ← hrest]
      congr 1
      refine List.map_congr_left fun i _ => ?_
      simp only [Function.comp_apply, Nat.succ_eq_add_one]
      rw [Nat.add_assoc, Nat.add_comm 1 i]

theorem transfers_delivered {o : OutputState Handed} {post : Post Handed}
    {replies : List (Option HttpOutcome)} (h : Transfers o post replies) :
    (replies.map fun reply => verdict (reply.getD .transportError)).count .delivered =
      if post.attempts.last = .delivered then 1 else 0 := by
  obtain ⟨hlen, hattempts⟩ := h
  have hloop := attemptLoop_delivered o.retryBackoffSeconds
    (fun attempt => replies[attempt]?.join.getD .transportError) o.maxPosts 0
  rw [← hattempts, ← hlen] at hloop
  rw [← hloop]
  congr 1
  refine List.ext_getElem (by simp) fun i hi hi' => ?_
  rw [List.length_map] at hi
  simp [hi]

/-! ## What the server makes of a batch -/

/-- The header is read as the number that curl has written. -/
theorem pyInt_decimalText {limits : Limits} {n : Nat} (hn : Short limits.maxStrDigits n) :
    pyInt limits (Lib.PyFloat.decimalText n) = some (n : Int) := by
  have hdigit : ∀ c ∈ Lib.PyFloat.decimalText n, Lib.PyJson.isDigit c = true := fun c hc =>
    Lib.PyFloat.isDigit_decimalText hc
  have hrange : ∀ c ∈ Lib.PyFloat.decimalText n, 48 ≤ c ∧ c ≤ 57 := fun c hc => by
    simpa [Lib.PyJson.isDigit] using hdigit c hc
  have hlength : limits.maxStrDigits = 0 ∨ (Lib.PyFloat.decimalText n).length ≤ limits.maxStrDigits := by
    rw [Lib.PyFloat.decimalText, List.length_map]
    by_cases h0 : limits.maxStrDigits = 0
    · exact .inl h0
    · exact .inr ((decimal_length_le_iff (Nat.pos_of_ne_zero h0)).mpr (hn.resolve_left h0))
  have hnat : pyNat limits (Lib.PyFloat.decimalText n) = some n := by
    have hsplit : (Lib.PyFloat.decimalText n).splitOn 95 = [Lib.PyFloat.decimalText n] :=
      List.splitOnP_eq_singleton fun c hc => by
        have := hrange c hc
        simp only [beq_eq_false_iff_ne]
        omega
    rw [pyNat, hsplit]
    simp only [List.flatten_singleton, Lib.PyFloat.digitsValue_decimalText]
    rw [if_pos]
    refine ⟨?_, hlength⟩
    simpa [Lib.PyFloat.decimalText_ne_nil] using hdigit
  have hspace : ∀ c ∈ Lib.PyFloat.decimalText n, ¬WebHandler.isSpace c = true := fun c hc => by
    have := hrange c hc
    simp only [WebHandler.isSpace, Bool.or_eq_true, Bool.and_eq_true, decide_eq_true_eq, beq_iff_eq]
    omega
  rw [pyInt, List.dropWhile_eq_self_iff.mpr fun hl => hspace _ (List.getElem_mem hl),
    List.rdropWhile_eq_self_iff.mpr fun hl => hspace _ (List.getLast_mem hl)]
  split
  · next ds he => exact absurd (hrange 43 (he ▸ List.mem_cons_self)) (by decide)
  · next ds he => exact absurd (hrange 45 (he ▸ List.mem_cons_self)) (by decide)
  · rw [hnat]
    rfl

/-- Events that can be read, and no more of them than an `int` counts. -/
structure Sendable (post : Post Handed) : Prop extends Legible post where
  few : post.batch.length < 2 ^ 31

theorem Sendable.short {post : Post Handed} (h : Sendable post) : Short 640 post.body.length := by
  have htexts : ∀ n ∈ (post.batch.map Handed.text).map (fun s => s.length + 1), n ≤ MAX_EVENT_SIZE + 1 := by
    rw [List.map_map, List.forall_mem_map]
    intro x _
    exact Nat.succ_le_succ ((List.takeWhile_prefix _).length_le.trans_eq x.event.2.jsonData.size)
  have hsum := List.sum_le_card_nsmul _ _ htexts
  rw [List.length_map, List.length_map, smul_eq_mul] at hsum
  have hfew := h.few
  rw [h.proper.2]
  refine short_of_lt (k := 20) ((BatchBody.postBody_length_le _).trans_lt ?_) (by decide)
  rw [OutputRefinement.bodySize]
  simp only [MAX_EVENT_SIZE] at hsum
  omega

/-- An event as the server stores it. -/
def Stored (objects : PyObjects PyValue) (text : Bytes) (e : EventObject) : Prop :=
  ∃ t members now, IsEventText text t members ∧ e = stamp objects now (pyDict members)

theorem serve_sendable {post : Post Handed} (h : Sendable post) (store : EventStore PyValue) (host : Server) :
    ∃ events, List.Forall₂ (Stored objects) (post.batch.map Handed.text)
        (events.map (stamp objects host.now)) ∧
      serve objects store post host = (.response 200, store.ingest objects host.now events) := by
  obtain ⟨hne, hbody⟩ := h.proper
  obtain ⟨values, hvalues, hloads⟩ := body_values hne h.texts
  have hvne : values ≠ [] := fun hnil =>
    hne (List.forall₂_nil_right_iff.mp (hnil ▸ hvalues))
  have hbodyne : post.body ≠ [] := hbody ▸ List.cons_ne_nil _ _
  have hpost : doPost objects host.toHost store (request post.body) = _ :=
    (doPost_events store rfl rfl (pyInt_decimalText (host.limits.short _ h.short)) hbodyne
      (List.append_nil _).symm).trans
      (BatchBody.receive_objects objects host.toHost store hvne (hbody ▸ hloads host.limits host.room))
  refine ⟨values.map pyDict, ?_, ?_⟩
  · rw [List.map_map, List.forall₂_map_left_iff, List.forall₂_map_right_iff]
    exact hvalues.imp fun x members ⟨t, htext⟩ => ⟨t, members, host.now, htext, rfl⟩
  · rw [serve, hpost]
    rfl

/-- What the store holds after these requests. -/
theorem holds_handled {m : Nat} (hm : 0 < m) (started : ℚ) {handled : List (Post Handed × Server)}
    (h : ∀ request ∈ handled, Sendable request.1) :
    ∃ all, Holds objects m all handled.length
        (handled.foldl (fun s request => (serve objects s request.1 request.2).2) (.new m started)) ∧
      List.Forall₂ (Stored objects) ((handled.flatMap fun request => request.1.batch).map Handed.text) all := by
  induction handled using List.reverseRecOn with
  | nil => exact ⟨[], holds_new started, .nil⟩
  | append_singleton handled last ih =>
    rw [List.forall_mem_append, List.forall_mem_singleton] at h
    obtain ⟨all, hholds, hall⟩ := ih h.1
    obtain ⟨events, hevents, hserve⟩ := serve_sendable h.2
      (handled.foldl (fun s request => (serve objects s request.1 request.2).2) (.new m started)) last.2
    refine ⟨all ++ events.map (stamp objects last.2.now), ?_, ?_⟩
    · rw [List.foldl_append, List.foldl_cons, List.foldl_nil, hserve, List.length_append]
      exact hholds.ingest hm last.2.now events
    · rw [List.flatMap_append, List.map_append, List.flatMap_singleton]
      exact List.rel_append hall hevents

/-! ## One step -/

theorem newPosts_append {cfg : SyswatchConfig} {s s' : Process} {l : Syswatch.Label}
    (hs : Process.step cfg s l = some s') :
    s'.posts.map Posted.post = s.posts.map Posted.post ++ newPosts s s' := by
  obtain ⟨added, hadded⟩ := move_posts (Process.step_cases hs)
  rw [newPosts, ← hadded, List.drop_left, List.map_append]

/-- The requests for these batches: one for each attempt. -/
def requests (posts : List (Post Handed)) : List (Post Handed) :=
  posts.flatMap fun post => List.replicate post.attempts.performed post

/-- What the transfers of some batches keep. -/
structure Sends (objects : PyObjects PyValue) (start : EventStore PyValue) (sent : List (Post Handed))
    (net : Network (Post Handed) Server (EventStore PyValue)) (done : List (Post Handed))
    (net' : Network (Post Handed) Server (EventStore PyValue)) : Prop where
  accounts : net'.Accounts (serve objects) start (sent ++ requests done)
  handled : net.handled <+: net'.handled
  delivered : ∀ post ∈ done, post.attempts.last = .delivered → post ∈ net'.handled.map Prod.fst

theorem transferPost_sends {start : EventStore PyValue} {sent : List (Post Handed)} {o : OutputState Handed}
    {net net' : Network (Post Handed) Server (EventStore PyValue)}
    {sendings : List (Post Handed × List (Wire Server))} (h : net.Accounts (serve objects) start sent)
    (hrun : run (transferPost objects o) net sendings = some net') :
    Sends objects start sent net (sendings.map Prod.fst) net' := by
  refine run_invariant (P := fun done n => Sends objects start sent net (done.map Prod.fst) n)
    ⟨by simpa [requests] using h, List.prefix_rfl, List.forall_mem_nil _⟩ ?_ hrun
  intro done n sending n' _ ih hn
  obtain ⟨⟨replies, after⟩, htransfer, hn⟩ := Option.bind_eq_some_iff.mp hn
  obtain ⟨hattempts, hn⟩ := Option.ite_none_right_eq_some.mp hn
  cases hn
  have hgrown := Network.transfer_handled htransfer
  refine ⟨?_, ih.handled.trans hgrown, ?_⟩
  · have haccounts := ih.accounts.transfer htransfer
    rw [hattempts.1, List.append_assoc] at haccounts
    simpa [requests] using haccounts
  · rw [List.map_append, List.forall_mem_append]
    refine ⟨fun post hpost hlast => (hgrown.map Prod.fst).subset (ih.delivered post hpost hlast), ?_⟩
    simp only [List.map_cons, List.map_nil, List.forall_mem_singleton]
    intro hlast
    have hcount := transfers_delivered hattempts
    rw [if_pos hlast] at hcount
    have hmem : Verdict.delivered ∈ replies.map fun reply => verdict (reply.getD .transportError) :=
      List.count_pos_iff.mp (hcount ▸ Nat.one_pos)
    obtain ⟨reply, hreply, hverdict⟩ := List.mem_map.mp hmem
    cases reply with
    | none => cases hverdict
    | some reply => exact Network.handled_of_reply htransfer hreply

/-- Readable batches are handled once if they are delivered, and else not, unless
a request is late. -/
theorem transferPost_prompt {o : OutputState Handed}
    {net net' : Network (Post Handed) Server (EventStore PyValue)}
    {sendings : List (Post Handed × List (Wire Server))}
    (hsendings : ∀ sending ∈ sendings, Sendable sending.1 ∧ Prompt sending.2)
    (hrun : run (transferPost objects o) net sendings = some net') :
    net'.handled.map Prod.fst = net.handled.map Prod.fst ++
      (sendings.map Prod.fst).filter fun post => post.attempts.last = .delivered := by
  refine run_invariant (P := fun done n => (∀ sending ∈ done, Sendable sending.1 ∧ Prompt sending.2) →
    n.handled.map Prod.fst = net.handled.map Prod.fst ++
      (done.map Prod.fst).filter fun post => post.attempts.last = .delivered)
    (fun _ => by simp) ?_ hrun hsendings
  intro done n sending n' _ ih hn hdone
  rw [List.forall_mem_append, List.forall_mem_singleton] at hdone
  obtain ⟨⟨replies, after⟩, htransfer, hn⟩ := Option.bind_eq_some_iff.mp hn
  obtain ⟨hattempts, hn⟩ := Option.ite_none_right_eq_some.mp hn
  cases hn
  have hreplies : replies.countP Option.isSome =
      if sending.1.attempts.last = .delivered then 1 else 0 := by
    rw [← transfers_delivered hattempts, List.count, List.countP_map]
    refine List.countP_congr fun reply hreply => ?_
    cases reply with
    | none => simp [verdict]
    | some reply =>
      obtain ⟨s, host, rfl⟩ := Network.reply_served htransfer hreply
      obtain ⟨events, -, hserve⟩ := @serve_sendable objects _ hdone.2.1 s host
      simp [hserve, verdict]
  rw [Network.transfer_prompt hdone.2.2 htransfer, ih hdone.1, hreplies, List.map_append,
    List.filter_append, List.append_assoc]
  congr 2
  by_cases hlast : sending.1.attempts.last = .delivered <;> simp [hlast]

/-! ## Every run -/

/-- What holds of the process and of what the server has received. -/
structure Carried (objects : PyObjects PyValue) (start : EventStore PyValue) (u : Link) : Prop where
  kept : Kept u.process
  texted : Texted u.process
  bounded : ∃ size retries, Startup.Bounded size retries u.process
  sends : Sends objects start [] (.start start) (u.process.posts.map Posted.post) u.net

def CleanStep : LinkLabel → Prop
  | .process l _ => CleanLabel l
  | .arrives _ _ => True

theorem step_carried {cfg : SyswatchConfig} {start : EventStore PyValue} {u u' : Link} {l : LinkLabel}
    (h : Carried objects start u) (hl : CleanStep l) (hm : Move objects cfg u l u') :
    Carried objects start u' := by
  cases hm with
  | process hs hlen hnet =>
    have hmove := Process.step_cases hs
    have hnew := transferPost_sends h.sends.accounts hnet
    rw [List.map_fst_zip (by omega)] at hnew
    obtain ⟨size, retries, hbounded⟩ := h.bounded
    refine ⟨step_kept h.kept hmove, step_texted h.texted hl hmove,
      ⟨size, retries, Startup.step_bounded hbounded hmove⟩, ?_⟩
    rw [newPosts_append hs]
    refine ⟨?_, h.sends.handled.trans hnew.handled, ?_⟩
    · have haccounts := hnew.accounts
      rwa [List.append_assoc, requests, requests, ← List.flatMap_append] at haccounts
    · rw [List.forall_mem_append]
      exact ⟨fun post hpost hlast =>
        (hnew.handled.map Prod.fst).subset (h.sends.delivered post hpost hlast), hnew.delivered⟩
  | arrives hnet =>
    have hgrown := Network.arrive_handled hnet
    exact ⟨h.kept, h.texted, h.bounded, h.sends.accounts.arrive hnet, h.sends.handled.trans hgrown,
      fun post hpost hlast => (hgrown.map Prod.fst).subset (h.sends.delivered post hpost hlast)⟩

section Runs

variable {init : InitEnv} {outputCfg : Option SyswatchConfig} {g output : OutputState Handed}
  {cfg : SyswatchConfig} {memory : Nat → EventQueueEntry} {clock started : ℚ} {m : Nat}
  {labels : List LinkLabel} {u : Link}

theorem run_carried (hinit : outputInit Handed init outputCfg g = (0, none, output))
    (hrun : run (step objects cfg) (.start memory clock output m started) labels = some u)
    (hclean : ∀ l ∈ labels, CleanStep l) : Carried objects (.new m started) u := by
  have h₀ : Carried objects (.new m started) (.start memory clock output m started) :=
    ⟨start_kept hinit memory clock, start_texted memory clock output,
      ⟨_, _, Startup.start_bounded hinit memory clock⟩, Network.accounts_start, List.prefix_rfl, List.forall_mem_nil _⟩
  refine run_invariant (P := fun ls t => (∀ l ∈ ls, CleanStep l) → Carried objects (.new m started) t)
    (fun _ => h₀) ?_ hrun hclean
  intro ls t l v _ ih hv hls
  rw [List.forall_mem_append, List.forall_mem_singleton] at hls
  exact step_carried (ih hls.1) hls.2 (step_cases hv)

theorem sendable_posts {s : Process} {size retries : Int32} (hkept : Kept s) (htexted : Texted s)
    (hbounded : Startup.Bounded size retries s) : ∀ r ∈ s.posts, Sendable r.post := by
  intro r hr
  have hbatch := (hbounded.posts r hr).batch
  have hsize := size.toInt_lt
  exact ⟨legible_posts hkept htexted r hr, by omega⟩

theorem Carried.posts {start : EventStore PyValue} (h : Carried objects start u) :
    ∀ r ∈ u.process.posts, Sendable r.post := by
  obtain ⟨size, retries, hbounded⟩ := h.bounded
  exact sendable_posts h.kept h.texted hbounded

/-- What a step is about to post can be read, too. -/
theorem Carried.newPosts {start : EventStore PyValue} (h : Carried objects start u) {l : Syswatch.Label}
    {s' : Process} (hl : CleanLabel l) (hs : Process.step cfg u.process l = some s') :
    ∀ post ∈ newPosts u.process s', Sendable post := by
  have hmove := Process.step_cases hs
  obtain ⟨size, retries, hbounded⟩ := h.bounded
  have hposts := sendable_posts (step_kept h.kept hmove) (step_texted h.texted hl hmove)
    (Startup.step_bounded hbounded hmove)
  intro post hpost
  obtain ⟨r, hr, rfl⟩ := List.mem_map.mp hpost
  exact hposts r (List.mem_of_mem_drop hr)

theorem Carried.sendable {start : EventStore PyValue} (h : Carried objects start u) :
    ∀ request ∈ u.net.handled, Sendable request.1 := by
  intro request hrequest
  have hsent : request.1 ∈ requests (u.process.posts.map Posted.post) :=
    h.sends.accounts.requests.subset (List.mem_append_left _ (List.mem_map_of_mem hrequest))
  obtain ⟨post, hpost, hcopy⟩ := List.mem_flatMap.mp hsent
  obtain ⟨r, hr, rfl⟩ := List.mem_map.mp hpost
  rw [List.eq_of_mem_replicate hcopy]
  exact h.posts r hr

theorem Carried.holds (hm : 0 < m) (h : Carried objects (.new m started) u) :
    ∃ all, Holds objects m all u.net.handled.length u.net.receiver ∧
      List.Forall₂ (Stored objects) ((u.net.handled.flatMap fun request => request.1.batch).map Handed.text)
        all := by
  rw [h.sends.accounts.receiver]
  exact holds_handled hm started h.sendable

/-- When nothing is late the delivered batches have been handled, and no others. -/
theorem run_prompt (hinit : outputInit Handed init outputCfg g = (0, none, output))
    (hrun : run (step objects cfg) (.start memory clock output m started) labels = some u)
    (hclean : ∀ l ∈ labels, CleanStep l) (hprompt : ∀ l ∈ labels, PromptLabel l) :
    u.net.handled.map Prod.fst =
      (u.process.posts.map Posted.post).filter fun post => post.attempts.last = .delivered := by
  refine run_invariant (P := fun ls t => (∀ l ∈ ls, CleanStep l) → (∀ l ∈ ls, PromptLabel l) →
    t.net.handled.map Prod.fst =
      (t.process.posts.map Posted.post).filter fun post => post.attempts.last = .delivered)
    (fun _ _ => rfl) ?_ hrun hclean hprompt
  intro ls t l v ht ih hv hls hps
  rw [List.forall_mem_append, List.forall_mem_singleton] at hls hps
  have hcarried := run_carried hinit ht hls.1
  cases step_cases hv with
  | @process _ scripts process net hs hlen hnet =>
    have hsendings : ∀ sending ∈ (newPosts t.process process).zip scripts,
        Sendable sending.1 ∧ Prompt sending.2 := by
      intro sending hsending
      obtain ⟨hpost, hscript⟩ := List.of_mem_zip hsending
      exact ⟨hcarried.newPosts hls.2 hs _ hpost, hps.2 _ hscript⟩
    rw [transferPost_prompt hsendings hnet, ih hls.1 hps.1, newPosts_append hs, List.filter_append,
      List.map_fst_zip (by omega)]
  | arrives hnet => exact absurd hps.2 id

/-- The run comes to its orderly end: `main` reaches `queue_destroy`, nothing was
overwritten in the queue, memory lasted, and each batch was delivered. -/
structure Fulfilled (cfg : SyswatchConfig) (s₀ : Process) (ls : List Syswatch.Label) (s : Process) : Prop where
  ended : s.main = .destroy
  orderly : OrderlyRun cfg s₀ ls
  granted : ∀ l ∈ ls, Granted l
  delivered : ∀ r ∈ s.posts, r.post.attempts.last = .delivered
  kept : queueDroppedCount s.tracked.queue = 0
  small : s.tracked.accepted.length < 2 ^ 64

theorem Fulfilled.batched {ls : List Syswatch.Label} {s : Process}
    (hinit : outputInit Handed init outputCfg g = (0, none, output)) (hmode : output.mode = .httpPost)
    (hrun : run (Process.step cfg) (.start memory clock output) ls = some s)
    (h : Fulfilled cfg (.start memory clock output) ls s) :
    (batched s).map (fun x => x.event.2) = s.tracked.accepted := by
  have hanswered : Answered s := fun r hr hlast => by
    rw [h.delivered r hr] at hlast
    cases hlast
  have hcomplete := run_complete (start_complete hinit hmode memory clock) hrun h.granted hanswered
  obtain ⟨hq, hfinished⟩ := queue_empty_at_end hrun h.ended h.orderly
  obtain ⟨lost, hdropped, hplaces, hall⟩ := emitted_accounts hcomplete.linked hq hfinished
  have hlost : lost = [] := by
    have hlen := hplaces.length_eq
    have hsmall := h.small
    rw [List.length_append, List.length_range] at hlen
    rw [h.kept] at hdropped
    have hmod := congrArg UInt64.toNat hdropped
    rw [UInt64.toNat_ofNat', Nat.mod_eq_of_lt (by omega)] at hmod
    exact List.length_eq_zero_iff.mp hmod.symm
  exact hcomplete.ended h.ended ▸ hall hlost

/-- If nothing is late the server has received the texts of the accepted events. -/
theorem Fulfilled.texts (hinit : outputInit Handed init outputCfg g = (0, none, output))
    (hmode : output.mode = .httpPost)
    (hrun : run (step objects cfg) (.start memory clock output m started) labels = some u)
    (hclean : ∀ l ∈ labels, CleanStep l)
    (h : Fulfilled cfg (.start memory clock output) (processLabels labels) u.process)
    (hprompt : ∀ l ∈ labels, PromptLabel l) :
    (u.net.handled.flatMap fun request => request.1.batch).map Handed.text =
      u.process.tracked.accepted.map textOf := by
  have hposts : u.net.handled.map Prod.fst = u.process.posts.map Posted.post := by
    rw [run_prompt hinit hrun hclean hprompt, List.filter_eq_self]
    intro post hpost
    obtain ⟨r, hr, rfl⟩ := List.mem_map.mp hpost
    exact decide_eq_true (h.delivered r hr)
  have hbatches : (u.net.handled.flatMap fun request => request.1.batch) = PostedEvents.batched u.process := by
    rw [PostedEvents.batched, ← List.flatMap_map Prod.fst Post.batch, hposts, List.flatMap_map]
  rw [hbatches, ← h.batched hinit hmode (run_process hrun), List.map_map]
  rfl

/-- **Every accepted event reaches the server** in a run that is fulfilled; and once
and in order, if no failed transfer arrives late. -/
theorem accepted_received (objects : PyObjects PyValue) (hm : 0 < m)
    (hinit : outputInit Handed init outputCfg g = (0, none, output)) (hmode : output.mode = .httpPost)
    (hrun : run (step objects cfg) (.start memory clock output m started) labels = some u)
    (hclean : ∀ l ∈ labels, CleanStep l)
    (h : Fulfilled cfg (.start memory clock output) (processLabels labels) u.process) :
    ∃ all, Holds objects m all u.net.handled.length u.net.receiver ∧
      (∀ entry ∈ u.process.tracked.accepted, ∃ e ∈ all, Stored objects (textOf entry) e) ∧
      ((∀ l ∈ labels, PromptLabel l) →
        List.Forall₂ (Stored objects) (u.process.tracked.accepted.map textOf) all) := by
  have hcarried := run_carried hinit hrun hclean
  obtain ⟨all, hholds, hstored⟩ := hcarried.holds hm
  refine ⟨all, hholds, fun entry hentry => ?_, fun hprompt => ?_⟩
  · rw [← h.batched hinit hmode (run_process hrun)] at hentry
    obtain ⟨x, hx, rfl⟩ := List.mem_map.mp hentry
    obtain ⟨r, hr, hx⟩ := List.mem_flatMap.mp hx
    obtain ⟨request, hrequest, hpost⟩ := List.mem_map.mp
      (hcarried.sends.delivered r.post (List.mem_map_of_mem hr) (h.delivered r hr))
    have hmem : x.text ∈ (u.net.handled.flatMap fun request => request.1.batch).map Handed.text :=
      List.mem_map_of_mem (List.mem_flatMap.mpr ⟨request, hrequest, hpost ▸ hx⟩)
    exact (related hstored).1 x.text hmem
  · rwa [h.texts hinit hmode hrun hclean hprompt] at hstored

/-! ## Which runs there are -/

/-- The link without the store, and without the texts of the requests. -/
structure Traffic where
  process : Process
  handled : Nat
  underWay : Nat

/-- The transfers of one batch, each answered with 200 or not at all. -/
def countPost (o : OutputState Handed) (counts : Nat × Nat) (sending : Post Handed × List (Wire Server)) :
    Option (Nat × Nat) :=
  (answers (.response 200) sending.2).bind fun replies =>
    if Transfers o sending.1 replies then
      some (counts.1 + replies.countP Option.isSome, counts.2 + replies.countP Option.isNone)
    else none

def Traffic.step (cfg : SyswatchConfig) (t : Traffic) : LinkLabel → Option Traffic
  | .process l scripts =>
    (Process.step cfg t.process l).bind fun process =>
      if (newPosts t.process process).length = scripts.length then
        (run (countPost t.process.output) (t.handled, t.underWay)
          ((newPosts t.process process).zip scripts)).map fun counts => ⟨process, counts.1, counts.2⟩
      else none
  | .arrives i _ =>
    if i < t.underWay then some { t with handled := t.handled + 1, underWay := t.underWay - 1 } else none

/-- The same process, and as many requests handled and under way. -/
structure Traffic.Counts (t : Traffic) (u : Link) : Prop where
  process : u.process = t.process
  handled : u.net.handled.length = t.handled
  underWay : u.net.underWay.length = t.underWay

theorem transferPost_of_count {o : OutputState Handed} (net : Network (Post Handed) Server (EventStore PyValue))
    {sendings : List (Post Handed × List (Wire Server))} (hsendings : ∀ sending ∈ sendings, Sendable sending.1)
    {counts : Nat × Nat}
    (h : run (countPost o) (net.handled.length, net.underWay.length) sendings = some counts) :
    ∃ net', run (transferPost objects o) net sendings = some net' ∧
      net'.handled.length = counts.1 ∧ net'.underWay.length = counts.2 := by
  refine run_invariant (P := fun done counts => (∀ sending ∈ done, Sendable sending.1) →
    ∃ net', run (transferPost objects o) net done = some net' ∧
      net'.handled.length = counts.1 ∧ net'.underWay.length = counts.2)
    (fun _ => ⟨net, rfl, rfl, rfl⟩) ?_ h hsendings
  intro done counts sending counts' _ ih hcounts hdone
  rw [List.forall_mem_append, List.forall_mem_singleton] at hdone
  obtain ⟨n, hn, hhandled, hunderWay⟩ := ih hdone.1
  obtain ⟨replies, hreplies, hcounts⟩ := Option.bind_eq_some_iff.mp hcounts
  obtain ⟨hattempts, hcounts⟩ := Option.ite_none_right_eq_some.mp hcounts
  cases hcounts
  have hserve (store : EventStore PyValue) (host : Server) :
      (serve objects store sending.1 host).1 = .response 200 := by
    obtain ⟨events, -, hserve⟩ := @serve_sendable objects _ hdone.2 store host
    rw [hserve]
  obtain ⟨n', htransfer, hhandled', hunderWay'⟩ := Network.transfer_answers hserve hreplies n
  refine ⟨n', run_snoc.mpr ⟨n, hn, ?_⟩, hhandled ▸ hhandled', hunderWay ▸ hunderWay'⟩
  rw [transferPost, htransfer, Option.bind_some, if_pos hattempts]

theorem step_of_traffic {start : EventStore PyValue} {t t' : Traffic} {l : LinkLabel}
    (hu : Carried objects start u) (hl : CleanStep l) (hcounts : t.Counts u) (h : t.step cfg l = some t') :
    ∃ u', step objects cfg u l = some u' ∧ t'.Counts u' := by
  obtain ⟨p, handled, underWay⟩ := t
  obtain ⟨rfl, rfl, rfl⟩ := hcounts
  cases l with
  | process l scripts =>
    obtain ⟨process, hs, h⟩ := Option.bind_eq_some_iff.mp h
    obtain ⟨hlen, h⟩ := Option.ite_none_right_eq_some.mp h
    obtain ⟨counts, hrun, rfl⟩ := Option.map_eq_some_iff.mp h
    obtain ⟨net', hnet, hhandled, hunderWay⟩ := @transferPost_of_count objects _ u.net _
      (fun sending hsending => hu.newPosts hl hs _ (List.of_mem_zip hsending).1) _ hrun
    refine ⟨⟨process, net'⟩, ?_, rfl, hhandled, hunderWay⟩
    rw [step, hs, Option.bind_some, if_pos hlen, hnet]
    rfl
  | arrives i host =>
    obtain ⟨hi, h⟩ := Option.ite_none_right_eq_some.mp h
    cases h
    have hi : i < u.net.underWay.length := hi
    refine ⟨⟨u.process, Network.handle (serve objects) ⟨u.net.receiver, u.net.underWay.eraseIdx i, u.net.handled⟩
      u.net.underWay[i] host⟩, ?_, rfl, ?_, ?_⟩
    · rw [step, Network.arrive, List.getElem?_eq_getElem hi]
      rfl
    · rw [Network.handle, List.length_append, List.length_singleton]
    · exact List.length_eraseIdx_of_lt hi

/-- **Every traffic is that of a run**: a network may fail and delay whatever it likes,
as long as the process has its attempts answered accordingly. -/
theorem run_traffic (hinit : outputInit Handed init outputCfg g = (0, none, output)) {t : Traffic}
    (h : run (Traffic.step cfg) ⟨.start memory clock output, 0, 0⟩ labels = some t)
    (hclean : ∀ l ∈ labels, CleanStep l) :
    ∃ u, run (step objects cfg) (.start memory clock output m started) labels = some u ∧ t.Counts u := by
  refine run_invariant (P := fun ls t => (∀ l ∈ ls, CleanStep l) →
    ∃ u, run (step objects cfg) (.start memory clock output m started) ls = some u ∧ t.Counts u)
    (fun _ => ⟨_, rfl, rfl, rfl, rfl⟩) ?_ h hclean
  intro ls t l t' _ ih ht' hls
  have hall := List.forall_mem_append.mp hls
  obtain ⟨u, hu, hcounts⟩ := ih hall.1
  obtain ⟨u', hu', hcounts'⟩ := step_of_traffic (run_carried hinit hu hall.1)
    (List.forall_mem_singleton.mp hall.2) hcounts ht'
  exact ⟨u', run_snoc.mpr ⟨u, hu, hu'⟩, hcounts'⟩

end Runs

/-! ## Runs with three batches -/

def flakyEnv : PostEnv :=
  ⟨true, true, fun attempt => if attempt = 0 then .transportError else .response 200⟩

def sampleServer : Server := ⟨sampleHost, by decide⟩

/-- Seven events are posted, the last batch with this environment, and then `late` happens. -/
def measuredLink (env : PostEnv) (script : List (Wire Server)) (late : List LinkLabel) : List LinkLabel :=
  collectsOnce.map (.process · []) ++
    ([.process (.delivery .proceed) [], .process (.delivery .proceed) [], .process (emitsAt 0) [],
      .process (emitsAt 3) [[.answered sampleServer]], .process (emitsAt 3) [], .process (emitsAt 3) [],
      .process (emitsAt 3) [[.answered sampleServer]], .process (emitsAt 3) [], .process (emitsAt 3) [],
      .process (.delivery (.flush env)) [script]] ++ (late ++
    (stops ++ wakesUp ++ joins).map (.process · [])))

/-- The last batch is posted twice, and the attempt that failed arrives after all. -/
def flakyRun : List LinkLabel :=
  measuredLink flakyEnv [.failed, .answered sampleServer] [.arrives 0 sampleServer]

def linkStart : Link := .start (fun _ => blankEntry) 0 (httpStart Handed fourEach) 100 0

theorem measuredLink_clean {env : PostEnv} {script : List (Wire Server)} {late : List LinkLabel}
    (h : ∀ l ∈ late, CleanStep l) : ∀ l ∈ measuredLink env script late, CleanStep l := by
  rw [measuredLink, List.forall_mem_append, List.forall_mem_append, List.forall_mem_append]
  refine ⟨?_, ?_, h, ?_⟩
  · simp [collectsOnce, CleanStep, CleanLabel, CleanInput, someReads_clean, someStamp_clean]
  · simp [emitsAt, CleanStep, CleanLabel]
  · simp [stops, wakesUp, joins, CleanStep, CleanLabel, CleanInput]

def trafficStart : Traffic := ⟨linkStart.process, 0, 0⟩

theorem measuredLink_run {labels : List LinkLabel} {handled : Nat} (hclean : ∀ l ∈ labels, CleanStep l)
    (h : (run (Traffic.step fourEach) trafficStart labels).map (fun t =>
      (t.process.main, t.handled, t.process.tracked.accepted.length,
        queueDroppedCount t.process.tracked.queue, t.process.posts.map fun r => r.post.attempts.last)) =
      some (.destroy, handled, 7, 0, List.replicate 3 .delivered))
    (horderly : OrderlyRun fourEach linkStart.process (processLabels labels))
    (hg : ∀ l ∈ processLabels labels, Granted l) :
    ∃ u, run (step sampleObjects fourEach) linkStart labels = some u ∧ u.net.handled.length = handled ∧
      u.process.tracked.accepted.length = 7 ∧
      Fulfilled fourEach linkStart.process (processLabels labels) u.process := by
  obtain ⟨t, ht, he⟩ := Option.map_eq_some_iff.mp h
  simp only [Prod.mk.injEq] at he
  obtain ⟨hmain, hhandled, haccepted, hdropped, hlast⟩ := he
  obtain ⟨u, hu, hcounts⟩ := run_traffic beginFour_init ht hclean
  rw [← hcounts.process] at hmain haccepted hdropped hlast
  refine ⟨u, hu, hcounts.handled.trans hhandled, haccepted, hmain, horderly, hg, fun r hr => ?_, hdropped,
    by omega⟩
  have hmem := List.mem_map_of_mem (f := fun r : Posted => r.post.attempts.last) hr
  rw [hlast] at hmem
  exact List.eq_of_mem_replicate hmem

theorem flakyRun_clean : ∀ l ∈ flakyRun, CleanStep l :=
  measuredLink_clean (List.forall_mem_singleton.mpr trivial)

theorem flaky_run : ∃ u, run (step sampleObjects fourEach) linkStart flakyRun = some u ∧
    u.net.handled.length = 4 ∧ u.process.tracked.accepted.length = 7 ∧
      Fulfilled fourEach linkStart.process (processLabels flakyRun) u.process :=
  measuredLink_run flakyRun_clean (by decide +kernel) (by decide +kernel)
    (by simp [processLabels, flakyRun, measuredLink, collectsOnce, emitsAt, stops, wakesUp, joins, Granted,
      SuppliedEmit, Supplied, quietEnv, flakyEnv])

/-- Seven events are accepted, and two of them are received twice. -/
theorem accepted_received_example :
    ∃ u, run (step sampleObjects fourEach) linkStart flakyRun = some u ∧
      u.process.tracked.accepted.length = 7 ∧
      ∃ all, Holds sampleObjects 100 all 4 u.net.receiver ∧
        ∀ entry ∈ u.process.tracked.accepted, ∃ e ∈ all, Stored sampleObjects (textOf entry) e := by
  obtain ⟨u, hu, hhandled, haccepted, hfulfilled⟩ := flaky_run
  obtain ⟨all, hholds, hall, -⟩ := accepted_received sampleObjects (by decide) beginFour_init rfl hu
    flakyRun_clean hfulfilled
  exact ⟨u, hu, haccepted, all, hhandled ▸ hholds, hall⟩

end Syswatch.Uplink
