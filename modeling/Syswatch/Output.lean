import Syswatch.Lib.Rounding
import Syswatch.Types

/-! # The output backends (`output.c`)

The state is generic in what stands for a buffered string, with `text` giving
its bytes. What the system answers, a clock reading, an allocation or a
response, is an argument of the call that asks for it. -/

namespace Syswatch
open Lib.CText Lib.Rounding

inductive OutputMode where
  | stdout
  | file
  | httpPost
  deriving DecidableEq

/-- `output_state_t`. `batchItems` lists the strings in use of the array
`batch_items`; the array itself has `batchCapacity` places once allocated. -/
structure OutputState (ι : Type) where
  mode : OutputMode
  fileHandle : Bool
  outputPath : CString 256
  outputUrl : CString 256
  authHeader : CString 256
  batchSize : Int32
  batchIntervalSeconds : Int32
  retryMaxAttempts : Int32
  retryBackoffSeconds : Int32
  batchItems : List ι
  batchAllocated : Bool
  batchCapacity : Nat
  batchStartedAt : Timespec
  batchStarted : Bool
  curlReady : Bool

/-- After `memset`. -/
def OutputState.zero (ι : Type) : OutputState ι where
  mode := .stdout
  fileHandle := false
  outputPath := .empty 256
  outputUrl := .empty 256
  authHeader := .empty 256
  batchSize := 0
  batchIntervalSeconds := 0
  retryMaxAttempts := 0
  retryBackoffSeconds := 0
  batchItems := []
  batchAllocated := false
  batchCapacity := 0
  batchStartedAt := ⟨0, 0⟩
  batchStarted := false
  curlReady := false

variable {ι : Type}

def OutputState.batchCount (s : OutputState ι) : Nat := s.batchItems.length

def freeBatchItems (s : OutputState ι) : OutputState ι :=
  { s with batchItems := [], batchStarted := false }

def batchReset (calloc : Bool) (s : OutputState ι) : OutputState ι :=
  let s := freeBatchItems s
  if s.batchCapacity = 0 then { s with batchCapacity := 16, batchAllocated := calloc } else s

/-- `while (new_capacity < needed) new_capacity *= 2`, with enough turns. -/
def growCapacity (needed : Nat) : Nat → Nat → Nat
  | 0, capacity => capacity
  | turns + 1, capacity =>
    if capacity < needed then growCapacity needed turns (capacity * 2) else capacity

def batchEnsureCapacity (realloc : Bool) (needed : Nat) (s : OutputState ι) : Int × OutputState ι :=
  if needed ≤ s.batchCapacity then (0, s)
  else
    let newCapacity := growCapacity needed needed (if s.batchCapacity = 0 then 16 else s.batchCapacity)
    if !realloc then (-1, s)
    else (0, { s with batchAllocated := true, batchCapacity := newCapacity })

/-! ## The age of a batch -/

def Timespec.seconds (t : Timespec) : ℚ := t.tvSec + t.tvNsec / 1000000000

/-- The seconds as a `double`. -/
def Timespec.double (t : Timespec) : ℚ := fl (fl t.tvSec + fl (fl t.tvNsec / 1000000000))

/-- The difference of two readings as `batch_age_seconds` computes it. -/
def ageAt (started now : Timespec) : ℚ := fl (now.double - started.double)

/-- `batch_age_seconds`; `now` is the clock's reading. -/
def batchAgeSeconds (now : Option Timespec) (s : OutputState ι) : ℚ :=
  if !s.batchStarted then 0
  else match now with
    | none => 0
    | some t => ageAt s.batchStartedAt t

/-- Doubles do not order the ages as time does: 1.999999999 s count as 2 s, 2 s do not. -/
example : ageAt ⟨8640000, 144272509⟩ ⟨8640002, 144272508⟩ = 2 ∧
    ageAt ⟨2, 100000000⟩ ⟨4, 100000000⟩ < 2 := by decide +kernel

def batchStartIfNeeded (now : Option Timespec) (s : OutputState ι) : OutputState ι :=
  if s.batchStarted then s
  else match now with
    | none => s
    | some t => { s with batchStartedAt := t, batchStarted := true }

/-! ## Posting a batch -/

/-- How `curl_easy_perform` ends. -/
inductive HttpOutcome where
  | transportError
  | response (code : Int)
  deriving DecidableEq

inductive Verdict where
  | delivered
  | refused
  | retry
  deriving DecidableEq

/-- A 2xx ends the loop, a client error other than 429 drops the batch, and
everything else is tried again. -/
def verdict : HttpOutcome → Verdict
  | .transportError => .retry
  | .response code =>
    if code ≥ 200 ∧ code < 300 then .delivered
    else if code ≥ 400 ∧ code < 500 ∧ code ≠ 429 then .refused
    else .retry

/-- The pause after a failed attempt. C leaves a shift by 32 or more undefined. -/
def backoffSeconds (retryBackoffSeconds : Int32) (attempt : Nat) : Option UInt32 :=
  let base := if retryBackoffSeconds.toUInt32 = 0 then 1 else retryBackoffSeconds.toUInt32
  if attempt < 32 then
    let backoff := base <<< UInt32.ofNat attempt
    some (if backoff > 60 then 60 else backoff)
  else none

/-- What the loop over the attempts did. -/
structure Attempts where
  performed : Nat
  last : Verdict
  sleeps : List (Option UInt32)

/-- The loop, with `left` attempts to go. An undefined shift leaves `none` among the
pauses, and what is written down behind it is what follows if the shift has some value. -/
def attemptLoop (retryBackoffSeconds : Int32) (outcome : Nat → HttpOutcome) : Nat → Nat → Attempts
  | 0, _ => ⟨0, .retry, []⟩
  | left + 1, attempt =>
    match verdict (outcome attempt) with
    | .delivered => ⟨1, .delivered, []⟩
    | .refused => ⟨1, .refused, []⟩
    | .retry =>
      let rest := attemptLoop retryBackoffSeconds outcome left (attempt + 1)
      { performed := rest.performed + 1
        last := rest.last
        sleeps := (if left > 0 then [backoffSeconds retryBackoffSeconds attempt] else []) ++
          rest.sleeps }

/-- `attempt <= retry_max_attempts` holds this often; for `INT_MAX` the counter would
run over, long behind an undefined shift. -/
def OutputState.maxPosts (s : OutputState ι) : Nat := (s.retryMaxAttempts.toInt + 1).toNat

/-- The request body: a JSON array of the events. -/
def postBody (texts : List Bytes) : Bytes := 91 :: (List.intercalate [44] texts ++ [93])

/-- One batch handed to curl, with the attempts made for it. -/
structure Post (ι : Type) where
  batch : List ι
  body : Bytes
  attempts : Attempts

/-- Every POST that was performed for the batch. -/
def Post.Performed (p : Post ι) : Prop := 0 < p.attempts.performed

/-- What `http_post_batch` asks the system for. -/
structure PostEnv where
  malloc : Bool
  curlInit : Bool
  outcome : Nat → HttpOutcome

/-- What a call leaves behind outside the process. -/
inductive Effect (ι : Type) where
  | stdoutLine (line : ι)
  | fileLine (line : ι)
  | post (p : Post ι)

def postsOf (effects : List (Effect ι)) : List (Post ι) :=
  effects.filterMap fun
    | .post p => some p
    | _ => none

@[simp] theorem postsOf_map (posts : List (Post ι)) : postsOf (posts.map Effect.post) = posts := by
  rw [postsOf, List.filterMap_map]
  exact List.filterMap_some

variable (text : ι → Bytes)

def httpPostBatch (env : PostEnv) (s : OutputState ι) : Int × List (Effect ι) × OutputState ι :=
  if s.batchCount = 0 then (0, [], s)
  else if !env.malloc then (-1, [], s)
  else if !env.curlInit then (-1, [], s)
  else
    let attempts := attemptLoop s.retryBackoffSeconds env.outcome s.maxPosts 0
    let post := Effect.post ⟨s.batchItems, postBody (s.batchItems.map text), attempts⟩
    match attempts.last with
    | .delivered => (0, [post], freeBatchItems s)
    | .refused => (0, [post], freeBatchItems s)
    | .retry => (-1, [post], freeBatchItems s)

def maybeFlushHttpBatch (now : Option Timespec) (env : PostEnv) (s : OutputState ι) :
    Int × List (Effect ι) × OutputState ι :=
  if s.batchCount = 0 then (0, [], s)
  else if Int32.ofNat s.batchCount ≥ s.batchSize then httpPostBatch text env s
  else if s.batchStarted ∧ s.batchIntervalSeconds > 0 ∧
      batchAgeSeconds now s ≥ s.batchIntervalSeconds.toInt then httpPostBatch text env s
  else (0, [], s)

/-! ## The interface -/

/-- What `output_init` asks the system for. -/
structure InitEnv where
  fopen : Bool
  url : Option Bytes
  auth : Option Bytes
  curlGlobalInit : Bool
  calloc : Bool

/-- The settings of `output_init`, before a mode is chosen. -/
def initialOutput (ι : Type) (cfg : SyswatchConfig) : OutputState ι :=
  { OutputState.zero ι with
    batchSize := if cfg.outputBatchSize > 0 then cfg.outputBatchSize else 50
    batchIntervalSeconds :=
      if cfg.outputBatchIntervalSeconds > 0 then cfg.outputBatchIntervalSeconds else 2
    retryMaxAttempts :=
      if cfg.outputRetryMaxAttempts ≥ 0 then cfg.outputRetryMaxAttempts else 5
    retryBackoffSeconds :=
      if cfg.outputRetryBackoffSeconds ≥ 0 then cfg.outputRetryBackoffSeconds else 1 }

/-- `output_init(cfg, err)`: the result, the text left in `*err`, and `g_output`. -/
def outputInit (ι : Type) (env : InitEnv) (cfg : Option SyswatchConfig) (s : OutputState ι) :
    Int × Option Bytes × OutputState ι :=
  match cfg with
  | none => (-1, some (ascii "output error: null config"), s)
  | some cfg =>
    let s := initialOutput ι cfg
    if cfg.outputType.bytes = [] ∨ cfg.outputType.bytes = ascii "stdout" then (0, none, s)
    else if cfg.outputType.bytes = ascii "file" then
      if cfg.outputPath.bytes = [] then
        (-1, some (ascii "output error: output.path required for file output"), s)
      else if !env.fopen then
        (-1, some (snprintf 512 (ascii "output error: failed to open '" ++ cfg.outputPath.bytes ++
          ascii "'")), s)
      else
        (0, none, { s with
          fileHandle := true, mode := .file
          outputPath := CString.ofBytes 256 cfg.outputPath.bytes })
    else if cfg.outputType.bytes = ascii "http_post" then
      if cfg.outputUrl.bytes = [] ∧ env.url = none then
        (-1, some (ascii "output error: output.url required for http_post"), s)
      else if !env.curlGlobalInit then
        (-1, some (ascii "output error: failed to initialize libcurl"), s)
      else
        let s := { s with
          mode := .httpPost, curlReady := true
          outputUrl := CString.ofBytes 256 (env.url.getD cfg.outputUrl.bytes)
          authHeader := match env.auth with
            | some auth => CString.ofBytes 256 auth
            | none => if cfg.outputAuthHeader.bytes ≠ [] then
                CString.ofBytes 256 cfg.outputAuthHeader.bytes else s.authHeader }
        let s := batchReset env.calloc s
        if !s.batchAllocated then
          (-1, some (ascii "output error: failed to allocate HTTP batch buffer"), .zero ι)
        else (0, none, s)
    else
      (-1, some (snprintf 256 (ascii "output error: unknown output.type '" ++ cfg.outputType.bytes ++
        ascii "'")), s)

/-- What `output_emit_event` asks the system for, in the order it does. -/
structure EmitEnv where
  ageNow : Option Timespec
  first : PostEnv
  startNow : Option Timespec
  realloc : Bool
  strdup : Bool
  second : PostEnv

/-- `output_emit_event(json_line)`. -/
def outputEmitEvent (env : EmitEnv) (s : OutputState ι) :
    Option ι → Int × List (Effect ι) × OutputState ι
  | none => (-1, [], s)
  | some line =>
    match s.mode with
    | .stdout => (0, [.stdoutLine line], s)
    | .file => if !s.fileHandle then (-1, [], s) else (0, [.fileLine line], s)
    | .httpPost =>
      let flushed := maybeFlushHttpBatch text env.ageNow env.first s
      if flushed.1 ≠ 0 then (-1, flushed.2.1, flushed.2.2)
      else
        let s := batchStartIfNeeded env.startNow flushed.2.2
        let room := batchEnsureCapacity env.realloc (s.batchCount + 1) s
        if room.1 ≠ 0 then (-1, flushed.2.1, room.2)
        else if !env.strdup then (-1, flushed.2.1, room.2)
        else
          let s := { room.2 with batchItems := room.2.batchItems ++ [line] }
          if Int32.ofNat s.batchCount ≥ s.batchSize then
            let posted := httpPostBatch text env.second s
            (posted.1, flushed.2.1 ++ posted.2.1, posted.2.2)
          else (0, flushed.2.1, s)

/-- `output_flush()`. -/
def outputFlush (env : PostEnv) (s : OutputState ι) : Int × List (Effect ι) × OutputState ι :=
  if s.mode = .httpPost then httpPostBatch text env s else (0, [], s)

/-- `output_shutdown()`. -/
def outputShutdown (env : PostEnv) (s : OutputState ι) : List (Effect ι) × OutputState ι :=
  ((outputFlush text env s).2.1, .zero ι)

end Syswatch
