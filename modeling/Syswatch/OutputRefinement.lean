import Syswatch.Lib.Machine
import Syswatch.OutputMemory
import Syswatch.OutputTriggers

/-! # The memory of the batch stands for its list

No access to the array or to the request body goes wrong, and the functions on
the memory do what those on the list of strings do. -/

namespace Syswatch.OutputRefinement
open Lib.CText Lib.Machine OutputMemory

/-- The array holds these strings and NULL behind them. -/
structure Holds (m : OutputMemory) (items : List Bytes) : Prop where
  count : m.batchCount = items.length
  slots : m.batchItems.getD [] =
    items.map some ++ List.replicate (m.batchCapacity - items.length) none
  room : items.length ≤ m.batchCapacity
  strings : ∀ s ∈ items, (0 : UInt8) ∉ s

variable {m : OutputMemory} {items : List Bytes} {i : Nat}

theorem Holds.item (h : Holds m items) (hi : i < items.length) :
    m.item i = some items[i] := by
  have hslots := h.slots
  cases hm : m.batchItems with
  | none =>
    rw [hm] at hslots
    have := congrArg List.length hslots
    simp at this
    omega
  | some slots =>
    rw [hm, Option.getD_some] at hslots
    simp [OutputMemory.item, hm, hslots, List.getElem?_append_left, hi]

/-! ## Freeing the batch -/

/-- One turn of `free_batch_items`. -/
theorem setItem_spec {slots : List (Option Bytes)} (hslots : m.batchItems = some slots)
    (hi : i < slots.length) (p : Option Bytes) :
    m.setItem i p = some { m with batchItems := some (slots.set i p) } := by
  rw [setItem, hslots, Option.bind_some, if_pos hi]

/-- Every string is freed and its place cleared. -/
theorem Holds.freeBatchItems (h : Holds m items) :
    ∃ m', m.freeBatchItems = some m' ∧ Holds m' [] ∧
      m'.view [] = Syswatch.freeBatchItems (m.view items) := by
  obtain ⟨m', hm', slots, rfl, hslots, hall⟩ := foldlM_range_spec (k := m.batchCount)
    (f := fun m i => m.setItem i none) (s := m)
    (P := fun i t => ∃ slots, t = { m with batchItems := slots } ∧
      slots.isSome = m.batchItems.isSome ∧ slots.getD [] =
        List.replicate i none ++ ((items.drop i).map some ++
          List.replicate (m.batchCapacity - items.length) none))
    ⟨m.batchItems, rfl, rfl, by simpa using h.slots⟩ (by
      rintro i hi t ⟨slots, rfl, hsome, hslots⟩
      rw [h.count] at hi
      cases slots with
      | none =>
        have := congrArg List.length hslots
        simp at this
        omega
      | some slots =>
        rw [Option.getD_some] at hslots
        refine ⟨_, setItem_spec rfl (by simp [hslots]; omega) none, some (slots.set i none), rfl,
          hsome, ?_⟩
        rw [Option.getD_some, hslots, List.drop_eq_getElem_cons hi, List.set_append_right _ _ (by simp),
          List.length_replicate, Nat.sub_self, List.replicate_succ', List.append_assoc]
        rfl)
  refine ⟨{ m with batchItems := slots, batchCount := 0, batchStarted := false }, ?_, ?_, ?_⟩
  · rw [OutputMemory.freeBatchItems, hm']
    rfl
  · refine ⟨rfl, ?_, Nat.zero_le _, by simp⟩
    have hroom := h.room
    rw [hall, h.count, List.drop_length, List.map_nil, List.nil_append, ← List.replicate_add]
    simp [hroom]
  · simp only [view, Syswatch.freeBatchItems, hslots]

/-! ## The request body -/

/-- What `body_len` counts: every string with a comma, and two brackets. -/
def bodySize (items : List Bytes) : Nat := 2 + (items.map fun s => s.length + 1).sum

theorem Holds.bodyLength (h : Holds m items) : m.bodyLength = some (bodySize items) := by
  obtain ⟨len, hlen, hP⟩ := foldlM_range_spec (k := m.batchCount)
    (f := fun len i => (m.item i).map fun s => len + (s.length + 1)) (s := 2)
    (P := fun i len => len = bodySize (items.take i)) rfl (by
      rintro i hi len rfl
      rw [h.count] at hi
      refine ⟨bodySize (items.take i) + (items[i].length + 1), by rw [h.item hi]; rfl, ?_⟩
      rw [bodySize, bodySize, List.take_succ_eq_append_getElem hi, List.map_append, List.sum_append,
        Nat.add_assoc]
      rfl)
  rw [OutputMemory.bodyLength, hlen, hP, h.count, List.take_length]

/-- The body before turn `i` of the loop: a comma goes in between only. -/
def bodySoFar (items : List Bytes) (i : Nat) : Bytes :=
  ascii "[" ++ if i < items.length then (items.take i).flatMap (· ++ ascii ",") else
    List.intercalate (ascii ",") items

theorem flatMap_comma_length (items : List Bytes) :
    (items.flatMap (· ++ ascii ",")).length = (items.map fun s => s.length + 1).sum := by
  rw [List.length_flatMap]
  exact congrArg List.sum (List.map_congr_left fun s _ => by rw [List.length_append]; rfl)

theorem intercalate_snoc (sep : Bytes) (items : List Bytes) (last : Bytes) :
    List.intercalate sep (items ++ [last]) = items.flatMap (· ++ sep) ++ last := by
  induction items with
  | nil => simp
  | cons s items ih =>
    rw [List.cons_append, List.flatMap_cons, List.append_assoc, List.append_assoc, ← ih]
    cases items <;> simp

theorem bodySoFar_zero : bodySoFar items 0 = ascii "[" := by
  cases items <;> simp [bodySoFar]

theorem bodySoFar_turn (hi : i < items.length) :
    bodySoFar items (i + 1) =
      bodySoFar items i ++ (items[i] ++ if i + 1 < items.length then ascii "," else []) := by
  rw [bodySoFar, bodySoFar, if_pos hi, List.append_assoc]
  congr 1
  by_cases hlast : i + 1 < items.length
  · rw [if_pos hlast, if_pos hlast, List.take_succ_eq_append_getElem hi, List.flatMap_append]
    simp
  · have hall : items = items.take i ++ [items[i]] := by
      rw [← List.take_succ_eq_append_getElem hi, List.take_of_length_le (by omega)]
    rw [if_neg hlast, if_neg hlast, List.append_nil]
    conv_lhs => rw [hall]
    exact intercalate_snoc _ _ _

/-- The body as it grows always fits, with its terminator, what was asked for. -/
theorem bodySoFar_length (i : Nat) : (bodySoFar items i).length < bodySize items := by
  rw [bodySoFar, List.length_append, bodySize]
  have hone : (ascii "[").length = 1 := rfl
  split
  · rw [flatMap_comma_length]
    have := List.Sublist.sum_le_sum ((List.take_sublist i items).map fun s => s.length + 1)
      (fun _ _ => Nat.zero_le _)
    omega
  · rcases List.eq_nil_or_concat items with rfl | ⟨init, last, rfl⟩
    · simp [hone]
    · rw [List.concat_eq_append, intercalate_snoc, List.length_append, flatMap_comma_length,
        List.map_append, List.sum_append]
      simp [hone]
      omega

theorem Holds.appendItem (h : Holds m items) (hi : i < items.length) {n : Nat}
    (hn : bodySize items < n) {body : Buffer n} (hbody : body.string? = some (bodySoFar items i)) :
    ∃ body', m.appendItem body i = some body' ∧ body'.string? = some (bodySoFar items (i + 1)) := by
  have hfit : (bodySoFar items (i + 1)).length < bodySize items := bodySoFar_length (i + 1)
  rw [bodySoFar_turn hi, List.length_append, List.length_append] at hfit
  obtain ⟨b, hb, hb'⟩ := Buffer.strcat_spec hbody (h.strings _ (List.getElem_mem hi)) (by omega)
  rw [bodySoFar_turn hi]
  by_cases hlast : i + 1 < items.length
  · rw [if_pos hlast] at hfit ⊢
    obtain ⟨b', hb₁, hb₁'⟩ := Buffer.strcat_spec hb' (show (0 : UInt8) ∉ ascii "," by decide) (by
      rw [List.length_append]
      omega)
    refine ⟨b', ?_, by rw [hb₁', List.append_assoc]⟩
    simp [OutputMemory.appendItem, h.item hi, hb, h.count, hlast, hb₁]
  · rw [if_neg hlast, List.append_nil]
    exact ⟨b, by simp [OutputMemory.appendItem, h.item hi, hb, h.count, hlast], hb'⟩

/-- **The request body stays inside its memory** and is the array of the
buffered events. -/
theorem Holds.assembleBody (h : Holds m items) {n : Nat} (hn : bodySize items < n)
    (memory : Buffer n) :
    ∃ body, m.assembleBody memory = some body ∧ body.string? = some (postBody items) := by
  obtain ⟨b, hb, hb'⟩ := Buffer.write_start memory (show (ascii "[" ++ [0]).length ≤ n by
    have : 2 ≤ bodySize items := Nat.le_add_right 2 _
    simp [ascii]
    omega)
  have hstart : b.string? = some (bodySoFar items 0) := by
    rw [bodySoFar_zero]
    exact Buffer.string?_of_bytes (by decide) (hb'.trans (List.append_assoc ..))
  obtain ⟨c, hc, hc'⟩ := foldlM_range_spec (k := m.batchCount) (f := m.appendItem) (s := b)
    (P := fun i body => body.string? = some (bodySoFar items i)) hstart
    (fun i hi body hbody => h.appendItem (h.count ▸ hi) hn hbody)
  have hfit : (bodySoFar items m.batchCount).length < bodySize items := bodySoFar_length _
  obtain ⟨d, hd, hd'⟩ := Buffer.strcat_spec hc' (show (0 : UInt8) ∉ ascii "]" by decide) (by
    simp [ascii]
    omega)
  refine ⟨d, ?_, ?_⟩
  · simp [OutputMemory.assembleBody, hb, hc, hd]
  · rw [hd', bodySoFar, h.count, if_neg (Nat.lt_irrefl _)]
    rfl

/-! ## The attempts -/

theorem writeResponseCb_spec {buf : ResponseBuf} (h : buf.len < 2048) (bytes : Bytes) :
    ∃ buf', writeResponseCb buf bytes = some buf' ∧ buf'.len < 2048 ∧ (0 : UInt8) ∈ buf'.data.bytes := by
  have hkept : ∃ kept : Bytes, kept = (if bytes.length > 2048 - buf.len - 1 then
      bytes.take (2048 - buf.len - 1) else bytes) ∧ buf.len + kept.length < 2048 := by
    refine ⟨_, rfl, ?_⟩
    split
    · rw [List.length_take]
      omega
    · omega
  obtain ⟨kept, hk, hlt⟩ := hkept
  obtain ⟨b, hb, -⟩ := Buffer.write_some buf.data hlt.le
  obtain ⟨c, hc, hc'⟩ := Buffer.write_some b
    (show buf.len + kept.length + ([0] : Bytes).length ≤ 2048 from hlt)
  refine ⟨⟨c, buf.len + kept.length⟩, ?_, hlt, by simp [hc']⟩
  simp only [writeResponseCb, ← hk, hb, hc, Option.bind_eq_bind, Option.bind_some]

/-- Whatever the receiver answers, its text is a string within `resp.data`. -/
theorem received_spec (chunks : List Bytes) {buf : ResponseBuf} (h : buf.len < 2048)
    (h0 : (0 : UInt8) ∈ buf.data.bytes) :
    ∃ buf', chunks.foldlM writeResponseCb buf = some buf' ∧ (0 : UInt8) ∈ buf'.data.bytes := by
  induction chunks generalizing buf with
  | nil => exact ⟨buf, rfl, h0⟩
  | cons bytes chunks ih =>
    obtain ⟨buf', hb, hlt, h0'⟩ := writeResponseCb_spec h bytes
    obtain ⟨last, hlast, hl0⟩ := ih hlt h0'
    exact ⟨last, by rw [List.foldlM_cons, hb]; exact hlast, hl0⟩

/-- The POSTs of a call with the pauses between them. -/
def attemptActions (r : Request) (a : Attempts) : List Action :=
  (List.range a.performed).flatMap fun i => .post r :: (a.sleeps[i]?.toList.map .sleep)

/-- What a diagnostic message is not. -/
def Action.Acts : Action → Bool
  | .stderr _ => false
  | _ => true

theorem attemptActions_pause (r : Request) (a : Attempts) (last : Verdict) (pause : Option UInt32) :
    attemptActions r ⟨a.performed + 1, last, pause :: a.sleeps⟩ =
      .post r :: .sleep pause :: attemptActions r a := by
  simp only [attemptActions, List.range_succ_eq_map, List.flatMap_cons, List.flatMap_map]
  rfl

/-- The loop on the memory goes through the attempts of the list model. -/
theorem postLoop_spec (m : OutputMemory) (answer : Nat → HttpAnswer) (body : Bytes)
    (left attempt : Nat) (data : Buffer 2048) :
    let attempts := attemptLoop m.retryBackoffSeconds (fun i => (answer i).outcome) left attempt
    ∃ said, (∀ x ∈ said, Action.Acts x = false) ∧ m.postLoop answer body left attempt data =
      some (attempts.last, attemptActions (m.request body) attempts ++ said) := by
  induction left generalizing attempt data with
  | zero => exact ⟨[], by simp, rfl⟩
  | succ left ih =>
    obtain ⟨b, hb, hb'⟩ := Buffer.write_start data (show ([0] : Bytes).length ≤ 2048 by decide)
    obtain ⟨resp, hresp, h0⟩ := received_spec (answer attempt).received
      (show (⟨b, 0⟩ : ResponseBuf).len < 2048 by simp) (by simp [hb'])
    rw [postLoop, attemptLoop]
    simp only [hb, hresp, Option.bind_eq_bind, Option.bind_some]
    cases hv : verdict (answer attempt).outcome with
    | delivered => exact ⟨[], by simp, rfl⟩
    | refused =>
      have hstring : resp.data.string? = some resp.data.text := if_pos h0
      refine ⟨refusal _ _ _, ?_, by rw [hstring]; rfl⟩
      simp [refusal, Action.Acts]
    | retry =>
      obtain ⟨said, hsaid, hrest⟩ := ih (attempt + 1) resp.data
      refine ⟨said, hsaid, ?_⟩
      simp only [hrest, Option.bind_some]
      cases left with
      | zero => rfl
      | succ left =>
        simp only [if_pos left.succ_pos, List.singleton_append]
        rw [attemptActions_pause]
        rfl

/-- The calls of the list model for a batch of this size. -/
def PostCall.view (env : PostCall) (items : List Bytes) : PostEnv where
  malloc := (env.malloc (bodySize items + 1)).isSome
  curlInit := env.curlInit
  outcome i := (env.answer i).outcome

def effectActions (m : OutputMemory) : Effect Bytes → List Action
  | .stdoutLine line => [.stdoutLine line]
  | .fileLine line => [.fileLine line]
  | .post p => attemptActions (m.request p.body) p.attempts

/-- The actions that are not messages are those of the effects. -/
def Agree (m : OutputMemory) (actions : List Action) (effects : List (Effect Bytes)) : Prop :=
  actions.filter Action.Acts = effects.flatMap (effectActions m)

/-- The reply of a function on the memory stands for that of the list model. -/
def Answers (m : OutputMemory) (reply : Option (Int × List Action × OutputMemory))
    (spec : Int × List (Effect Bytes) × OutputState Bytes) : Prop :=
  ∃ actions m', reply = some (spec.1, actions, m') ∧ Agree m actions spec.2.1 ∧
    Holds m' spec.2.2.batchItems ∧ m'.view spec.2.2.batchItems = spec.2.2 ∧ m'.request = m.request

theorem Holds.unchanged (h : Holds m items) (code : Int) :
    Answers m (some (code, [], m)) (code, [], m.view items) :=
  ⟨[], m, rfl, rfl, h, rfl, rfl⟩

theorem request_congr {m m' : OutputMemory} {items : List Bytes} {s : OutputState Bytes}
    (h : m'.view items = s) (hurl : s.outputUrl = m.outputUrl) (hauth : s.authHeader = m.authHeader) :
    m'.request = m.request := by
  have hurl' : m'.outputUrl = m.outputUrl := (congrArg OutputState.outputUrl h).trans hurl
  have hauth' : m'.authHeader = m.authHeader := (congrArg OutputState.authHeader h).trans hauth
  funext body
  rw [request, request, hurl', hauth']

theorem attemptActions_acts (r : Request) (a : Attempts) :
    ∀ x ∈ attemptActions r a, Action.Acts x = true := by
  intro x hx
  obtain ⟨i, -, hx⟩ := List.mem_flatMap.mp hx
  rcases List.mem_cons.mp hx with rfl | hx
  · rfl
  · obtain ⟨_, -, rfl⟩ := List.mem_map.mp hx
    rfl

theorem agree_attempts (m : OutputMemory) (p : Post Bytes) {said : List Action}
    (hsaid : ∀ x ∈ said, Action.Acts x = false) :
    Agree m (attemptActions (m.request p.body) p.attempts ++ said) [.post p] := by
  have hmessages : said.filter Action.Acts = [] :=
    List.filter_eq_nil_iff.mpr fun x hx => by simp [hsaid x hx]
  rw [Agree, List.filter_append, List.filter_eq_self.mpr (attemptActions_acts _ _), hmessages]
  simp [effectActions]

theorem Holds.count_ne_zero (h : Holds m items) (hne : items ≠ []) : ¬m.batchCount = 0 := by
  rw [h.count]
  exact fun h0 => hne (List.length_eq_zero_iff.mp h0)

/-- What a batch with memory and a handle goes through. -/
theorem Holds.httpPostBatch_supplied (h : Holds m items) (hne : items ≠ []) {env : PostCall}
    {memory : Buffer (bodySize items + 1)} (hmalloc : env.malloc (bodySize items + 1) = some memory)
    (hcurl : env.curlInit = true) :
    ∃ said m', (∀ x ∈ said, Action.Acts x = false) ∧ Holds m' [] ∧
      m'.view [] = Syswatch.freeBatchItems (m.view items) ∧
      m.httpPostBatch env =
        let attempts := attemptLoop m.retryBackoffSeconds (fun i => (env.answer i).outcome) m.maxPosts 0
        some (if attempts.last = .retry then -1 else 0,
          attemptActions (m.request (postBody items)) attempts ++ said, m') := by
  obtain ⟨body, hbody, hstring⟩ := h.assembleBody (Nat.lt_succ_self _) memory
  obtain ⟨said, hsaid, hloop⟩ := postLoop_spec m env.answer (postBody items) m.maxPosts 0 env.respData
  obtain ⟨m', hfree, hholds, hview⟩ := h.freeBatchItems
  simp only [OutputMemory.httpPostBatch, if_neg (h.count_ne_zero hne), h.bodyLength, hmalloc, hbody, hcurl, hstring,
    hloop, hfree, Option.bind_eq_bind, Option.bind_some, Bool.not_true, Bool.false_eq_true, if_false]
  cases (attemptLoop m.retryBackoffSeconds (fun i => (env.answer i).outcome) m.maxPosts 0).last with
  | delivered | refused => exact ⟨said, m', hsaid, hholds, hview, rfl⟩
  | retry =>
    refine ⟨said ++ [_], m', ?_, hholds, hview, by rw [← List.append_assoc]; rfl⟩
    intro x hx
    rcases List.mem_append.mp hx with hx | hx
    · exact hsaid x hx
    · rw [List.mem_singleton.mp hx]
      rfl

/-- Without memory or a handle the batch stays as it is. -/
theorem Holds.httpPostBatch_starved (h : Holds m items) (hne : items ≠ []) {env : PostCall}
    (henv : env.malloc (bodySize items + 1) = none ∨ env.curlInit = false) :
    m.httpPostBatch env = some (-1, [], m) := by
  simp only [OutputMemory.httpPostBatch, if_neg (h.count_ne_zero hne), h.bodyLength,
    Option.bind_eq_bind, Option.bind_some]
  cases hmalloc : env.malloc (bodySize items + 1) with
  | none => rfl
  | some memory =>
    have hcurl : env.curlInit = false := henv.resolve_left (by rw [hmalloc]; exact Option.some_ne_none _)
    obtain ⟨body, hbody, -⟩ := h.assembleBody (Nat.lt_succ_self _) memory
    simp only [hbody, hcurl, Option.bind_some, Bool.not_false, if_true]

/-- **`http_post_batch` on the memory** does what it does to the list. -/
theorem Holds.httpPostBatch (h : Holds m items) (env : PostCall) :
    Answers m (m.httpPostBatch env)
      (Syswatch.httpPostBatch id (PostCall.view env items) (m.view items)) := by
  by_cases hne : items = []
  · subst hne
    rw [OutputDelivery.httpPostBatch_nil _ rfl, OutputMemory.httpPostBatch,
      if_pos (show m.batchCount = 0 from h.count)]
    exact h.unchanged 0
  cases hmalloc : env.malloc (bodySize items + 1) with
  | none =>
    rw [OutputTriggers.httpPostBatch_fails (by simp [OutputDelivery.Supplied, PostCall.view, hmalloc]) hne,
      h.httpPostBatch_starved hne (.inl hmalloc)]
    exact h.unchanged (-1)
  | some memory =>
    cases hcurl : env.curlInit with
    | false =>
      rw [OutputTriggers.httpPostBatch_fails (by simp [OutputDelivery.Supplied, PostCall.view, hcurl]) hne,
        h.httpPostBatch_starved hne (.inr hcurl)]
      exact h.unchanged (-1)
    | true =>
      obtain ⟨said, m', hsaid, hholds, hview, hrun⟩ := h.httpPostBatch_supplied hne hmalloc hcurl
      have hspec := OutputDelivery.httpPostBatch_spec id
        (show OutputDelivery.Supplied (PostCall.view env items) by
          simp [OutputDelivery.Supplied, PostCall.view, hmalloc, hcurl])
        (show (m.view items).batchItems ≠ [] from hne)
      have hlast := OutputDelivery.posted_last id (PostCall.view env items) (m.view items)
      have hbody : (OutputDelivery.posted id (PostCall.view env items) (m.view items)).body =
          postBody items := congrArg postBody (List.map_id items)
      have hagree := agree_attempts m (OutputDelivery.posted id (PostCall.view env items)
        (m.view items)) hsaid
      rw [hbody] at hagree
      rw [hspec]
      refine ⟨_, m', hrun.trans ?_, hagree, hholds, hview, request_congr hview rfl rfl⟩
      simp only [← hlast]
      rfl

/-! ## The interface -/

theorem Holds.maybeFlushHttpBatch (h : Holds m items) (now : Option Timespec) (env : PostCall) :
    Answers m (m.maybeFlushHttpBatch now env)
      (Syswatch.maybeFlushHttpBatch id now (PostCall.view env items) (m.view items)) := by
  have hcount : (m.view items).batchCount = m.batchCount := h.count.symm
  have hsize : (m.view items).batchSize = m.batchSize := rfl
  have hstarted : (m.view items).batchStarted = m.batchStarted := rfl
  have hinterval : (m.view items).batchIntervalSeconds = m.batchIntervalSeconds := rfl
  have hage : batchAgeSeconds now (m.view items) = batchAgeSeconds now (m.view []) := rfl
  rw [OutputMemory.maybeFlushHttpBatch, Syswatch.maybeFlushHttpBatch, hcount, hsize, hstarted,
    hinterval, hage]
  split
  · exact h.unchanged 0
  · split
    · exact h.httpPostBatch env
    · split
      · exact h.httpPostBatch env
      · exact h.unchanged 0

theorem Holds.batchStartIfNeeded (h : Holds m items) (now : Option Timespec) :
    Holds (m.batchStartIfNeeded now) items ∧
      (m.batchStartIfNeeded now).view items = Syswatch.batchStartIfNeeded now (m.view items) := by
  have hstarted : (m.view items).batchStarted = m.batchStarted := rfl
  unfold OutputMemory.batchStartIfNeeded Syswatch.batchStartIfNeeded
  rw [hstarted]
  split
  · exact ⟨h, rfl⟩
  · cases now with
    | none => exact ⟨h, rfl⟩
    | some t => exact ⟨⟨h.count, h.slots, h.room, h.strings⟩, rfl⟩

theorem Holds.batchEnsureCapacity (h : Holds m items) (realloc : Bool) (needed : Nat) :
    let room := Syswatch.batchEnsureCapacity realloc needed (m.view items)
    (m.batchEnsureCapacity realloc needed).1 = room.1 ∧
      Holds (m.batchEnsureCapacity realloc needed).2 items ∧
      (m.batchEnsureCapacity realloc needed).2.view items = room.2 ∧
      (room.1 = 0 → needed ≤ room.2.batchCapacity) := by
  have hcapacity : (m.view items).batchCapacity = m.batchCapacity := rfl
  simp only [OutputMemory.batchEnsureCapacity, Syswatch.batchEnsureCapacity, hcapacity]
  by_cases hn : needed ≤ m.batchCapacity
  · rw [if_pos hn, if_pos hn]
    exact ⟨rfl, h, rfl, fun _ => hn⟩
  rw [if_neg hn, if_neg hn]
  cases realloc with
  | false => exact ⟨rfl, h, rfl, fun h0 => absurd (show (-1 : Int) = 0 from h0) (by decide)⟩
  | true =>
    have hge : needed ≤ growCapacity needed needed
        (if m.batchCapacity = 0 then 16 else m.batchCapacity) :=
      OutputDelivery.growCapacity_ge needed _ (by split <;> omega) (by omega)
    refine ⟨rfl, ⟨h.count, ?_, ?_, h.strings⟩, rfl, fun _ => hge⟩
    · have hroom := h.room
      simp only [Bool.not_true, Bool.false_eq_true, if_false, Option.getD_some]
      rw [h.slots, List.append_assoc, List.replicate_append_replicate]
      congr 2
      omega
    · exact h.room.trans ((Nat.le_of_not_le hn).trans hge)

theorem Holds.pushItem (h : Holds m items) (hroom : items.length < m.batchCapacity) {s : Bytes}
    (hs : (0 : UInt8) ∉ s) :
    ∃ m', m.pushItem s = some m' ∧ Holds m' (items ++ [s]) ∧ m'.request = m.request ∧
      m'.view (items ++ [s]) =
        { m.view items with batchItems := (m.view items).batchItems ++ [s] } := by
  have hlen := congrArg List.length h.slots
  simp only [List.length_append, List.length_map, List.length_replicate] at hlen
  cases hm : m.batchItems with
  | none =>
    rw [hm] at hlen
    simp at hlen
    omega
  | some slots =>
    have hslots := h.slots
    rw [hm, Option.getD_some] at hslots hlen
    have hset := setItem_spec hm (by rw [h.count, hlen]; omega) (some s) (i := m.batchCount)
    refine ⟨{ m with
        batchItems := some (slots.set m.batchCount (some s)), batchCount := m.batchCount + 1 },
      by rw [OutputMemory.pushItem, hset]; rfl, ⟨?_, ?_, ?_, ?_⟩, rfl, ?_⟩
    · simp [h.count]
    · obtain ⟨k, hk⟩ := Nat.exists_eq_add_of_lt hroom
      have hrest : m.batchCapacity - items.length = k + 1 := by omega
      have hrest' : m.batchCapacity - (items ++ [s]).length = k := by
        rw [List.length_append, List.length_singleton]
        omega
      simp only [Option.getD_some]
      rw [hslots, h.count, hrest, hrest', List.set_append_right _ _ (by simp), List.length_map,
        Nat.sub_self, List.replicate_succ, List.set_cons_zero, List.map_append, List.append_assoc]
      rfl
    · rw [List.length_append, List.length_singleton]
      exact hroom
    · intro t ht
      rcases List.mem_append.mp ht with ht | ht
      · exact h.strings t ht
      · rw [List.mem_singleton.mp ht]
        exact hs
    · simp only [OutputMemory.view, hm, Option.isSome_some]

theorem Answers.elim {m : OutputMemory} {reply : Option (Int × List Action × OutputMemory)}
    {spec : Int × List (Effect Bytes) × OutputState Bytes} (h : Answers m reply spec) :
    ∃ items' actions m', reply = some (spec.1, actions, m') ∧ Agree m actions spec.2.1 ∧
      Holds m' items' ∧ spec.2.2 = m'.view items' ∧ m'.request = m.request := by
  obtain ⟨actions, m', hreply, hagree, hholds, hview, htarget⟩ := h
  exact ⟨_, actions, m', hreply, hagree, hholds, hview.symm, htarget⟩

theorem Agree.append {m m' : OutputMemory} (hm : m'.request = m.request) {actions actions' : List Action}
    {effects effects' : List (Effect Bytes)} (h : Agree m actions effects)
    (h' : Agree m' actions' effects') : Agree m (actions ++ actions') (effects ++ effects') := by
  have hsame : effectActions m' = effectActions m := by
    funext e
    cases e <;> simp [effectActions, hm]
  rw [Agree, hsame] at h'
  rw [Agree, List.filter_append, h, h', List.flatMap_append]

theorem batchStartIfNeeded_request (m : OutputMemory) (now : Option Timespec) :
    (m.batchStartIfNeeded now).request = m.request := by
  unfold OutputMemory.batchStartIfNeeded
  split
  · rfl
  · cases now <;> rfl

theorem batchEnsureCapacity_request (m : OutputMemory) (realloc : Bool) (needed : Nat) :
    (m.batchEnsureCapacity realloc needed).2.request = m.request := by
  unfold OutputMemory.batchEnsureCapacity
  dsimp only
  split_ifs <;> rfl

/-- The end of `output_emit_event`: the string is stored, and a full batch posted. -/
theorem Holds.storeItem (h : Holds m items) (hfits : items.length < m.batchCapacity) {s : Bytes}
    (hs : (0 : UInt8) ∉ s) (env : PostCall) {start : OutputMemory} (htarget : m.request = start.request)
    {actions : List Action} {effects : List (Effect Bytes)} (hagree : Agree start actions effects) :
    let stored := { m.view items with batchItems := items ++ [s] }
    let posted := Syswatch.httpPostBatch id (PostCall.view env (items ++ [s])) stored
    Answers start
      (do
        let m ← m.pushItem s
        if Int32.ofNat m.batchCount ≥ m.batchSize then
          let (code, posted, m) ← m.httpPostBatch env
          some (code, actions ++ posted, m)
        else some (0, actions, m))
      (if Int32.ofNat stored.batchCount ≥ stored.batchSize then
        (posted.1, effects ++ posted.2.1, posted.2.2)
      else (0, effects, stored)) := by
  obtain ⟨m', hpush, h', htarget', hview'⟩ := h.pushItem hfits hs
  have hcount : (m'.view (items ++ [s])).batchCount = m'.batchCount := h'.count.symm
  have hsize : (m'.view (items ++ [s])).batchSize = m'.batchSize := rfl
  intro stored posted
  have hstored : stored = m'.view (items ++ [s]) := hview'.symm
  simp only [hpush, Option.bind_eq_bind, Option.bind_some, posted, hstored]
  rw [hcount, hsize]
  split
  · obtain ⟨said, m'', hpost, hagree', h'', hview'', htarget''⟩ := h'.httpPostBatch env
    rw [hpost]
    exact ⟨actions ++ said, m'', rfl, hagree.append (htarget'.trans htarget) hagree', h'', hview'',
      htarget''.trans (htarget'.trans htarget)⟩
  · exact ⟨actions, m', rfl, hagree, h', rfl, htarget'.trans htarget⟩

/-- **`output_emit_event` on the memory** does what it does to the list. -/
theorem Holds.outputEmitEvent (h : Holds m items) (env : EmitCall) (line : Option Bytes) :
    ∃ env' : EmitEnv, env'.startNow = env.startNow ∧ Answers m (m.outputEmitEvent env line)
      (Syswatch.outputEmitEvent id env' (m.view items) (line.map cstr)) := by
  obtain ⟨items₁, actions, m₁, hflush, hagree, h₁, hview, htarget⟩ :=
    (h.maybeFlushHttpBatch env.ageNow env.first).elim
  generalize hspec : Syswatch.maybeFlushHttpBatch id env.ageNow (PostCall.view env.first items)
    (m.view items) = spec at hflush hagree hview
  obtain ⟨code, effects, s⟩ := spec
  dsimp only at hflush hagree hview
  subst hview
  refine ⟨⟨env.ageNow, PostCall.view env.first items, env.startNow, env.realloc, env.strdup,
    PostCall.view env.second (items₁ ++ (line.map cstr).toList)⟩, rfl, ?_⟩
  cases line with
  | none => exact h.unchanged (-1)
  | some line =>
    have hmode' : (m.view items).mode = m.mode := rfl
    unfold OutputMemory.outputEmitEvent Syswatch.outputEmitEvent
    simp only [Option.map_some, hmode']
    cases hmode : m.mode with
    | stdout => exact ⟨[_], m, rfl, rfl, h, rfl, rfl⟩
    | file =>
      have hfile : (m.view items).fileHandle = m.fileHandle := rfl
      simp only [hfile]
      split
      · exact h.unchanged (-1)
      · exact ⟨[_], m, rfl, rfl, h, rfl, rfl⟩
    | httpPost =>
      simp only [hflush, hspec, Option.bind_eq_bind, Option.bind_some]
      split
      · exact ⟨actions, m₁, rfl, hagree, h₁, rfl, htarget⟩
      obtain ⟨h₂, hview₂⟩ := h₁.batchStartIfNeeded env.startNow
      have htarget₂ := batchStartIfNeeded_request m₁ env.startNow
      rw [← hview₂]
      generalize m₁.batchStartIfNeeded env.startNow = m₂ at h₂ htarget₂ ⊢
      obtain ⟨hcode, h₃, hview₃, hroom⟩ := h₂.batchEnsureCapacity env.realloc (m₂.batchCount + 1)
      have htarget₃ := batchEnsureCapacity_request m₂ env.realloc (m₂.batchCount + 1)
      have hcount₂ : (m₂.view items₁).batchCount = m₂.batchCount := h₂.count.symm
      rw [hcount₂, ← hcode]
      generalize m₂.batchEnsureCapacity env.realloc (m₂.batchCount + 1) = r₃ at *
      generalize Syswatch.batchEnsureCapacity env.realloc (m₂.batchCount + 1) (m₂.view items₁) =
        s₃ at *
      obtain ⟨code₃, m₃⟩ := r₃
      obtain ⟨code₃', s₃⟩ := s₃
      dsimp only at hcode h₃ hview₃ hroom htarget₃ ⊢
      subst hview₃ hcode
      have htarget' : m₃.request = m.request := htarget₃.trans (htarget₂.trans htarget)
      split
      · exact ⟨actions, m₃, rfl, hagree, h₃, rfl, htarget'⟩
      · next hok =>
        split
        · exact ⟨actions, m₃, rfl, hagree, h₃, rfl, htarget'⟩
        · have hfits : items₁.length < m₃.batchCapacity := by
            have := hroom (not_not.mp hok)
            rwa [h₂.count] at this
          exact h₃.storeItem hfits (zero_notMem_cstr line) env.second htarget' hagree

theorem Holds.outputFlush (h : Holds m items) (env : PostCall) :
    Answers m (m.outputFlush env)
      (Syswatch.outputFlush id (PostCall.view env items) (m.view items)) := by
  have hmode : (m.view items).mode = m.mode := rfl
  rw [OutputMemory.outputFlush, Syswatch.outputFlush, hmode]
  split
  · exact h.httpPostBatch env
  · exact h.unchanged 0

/-! ## Whole runs -/

inductive MemoryCall where
  | emit (line : Option Bytes) (env : EmitCall)
  | flush (env : PostCall)

def MemoryCall.exec (m : OutputMemory) : MemoryCall → Option OutputMemory
  | .emit line env => (m.outputEmitEvent env line).map fun r => r.2.2
  | .flush env => (m.outputFlush env).map fun r => r.2.2

/-- After `output_init`: `calloc` has cleared every place. -/
def fresh (s : OutputState Bytes) : OutputMemory where
  mode := s.mode
  fileHandle := s.fileHandle
  outputPath := s.outputPath
  outputUrl := s.outputUrl
  authHeader := s.authHeader
  batchSize := s.batchSize
  batchIntervalSeconds := s.batchIntervalSeconds
  retryMaxAttempts := s.retryMaxAttempts
  retryBackoffSeconds := s.retryBackoffSeconds
  batchItems := if s.batchAllocated then some (List.replicate s.batchCapacity none) else none
  batchCount := 0
  batchCapacity := s.batchCapacity
  batchStartedAt := s.batchStartedAt
  batchStarted := s.batchStarted
  curlReady := s.curlReady

theorem fresh_holds {s : OutputState Bytes} (h : s.batchAllocated = true) : Holds (fresh s) [] where
  count := rfl
  slots := by simp [fresh, h]
  room := Nat.zero_le _
  strings := by simp

end Syswatch.OutputRefinement
