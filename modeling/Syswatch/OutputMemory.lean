import Syswatch.Lib.CBuffer
import Syswatch.Output

/-! # The batch in memory (`output.c`)

The functions of the batch once more, on `output_state_t` as it lies in memory:
every place of the array `batch_items` holds NULL or a string, and the request
body is put together in the bytes that `malloc` gave. What would read through
NULL or outside of an array has no result. -/

namespace Syswatch
open Lib.CText

/-- `output_state_t`. -/
structure OutputMemory where
  mode : OutputMode
  fileHandle : Bool
  outputPath : CString 256
  outputUrl : CString 256
  authHeader : CString 256
  batchSize : Int32
  batchIntervalSeconds : Int32
  retryMaxAttempts : Int32
  retryBackoffSeconds : Int32
  batchItems : Option (List (Option Bytes))
  batchCount : Nat
  batchCapacity : Nat
  batchStartedAt : Timespec
  batchStarted : Bool
  curlReady : Bool

namespace OutputMemory

/-- The state as the list of its strings. -/
def view (m : OutputMemory) (items : List Bytes) : OutputState Bytes where
  mode := m.mode
  fileHandle := m.fileHandle
  outputPath := m.outputPath
  outputUrl := m.outputUrl
  authHeader := m.authHeader
  batchSize := m.batchSize
  batchIntervalSeconds := m.batchIntervalSeconds
  retryMaxAttempts := m.retryMaxAttempts
  retryBackoffSeconds := m.retryBackoffSeconds
  batchItems := items
  batchAllocated := m.batchItems.isSome
  batchCapacity := m.batchCapacity
  batchStartedAt := m.batchStartedAt
  batchStarted := m.batchStarted
  curlReady := m.curlReady

/-- `batch_items[i]`, to be read as a string. -/
def item (m : OutputMemory) (i : Nat) : Option Bytes :=
  m.batchItems.bind fun slots => (slots[i]?).join

/-- `batch_items[i] = p`. -/
def setItem (m : OutputMemory) (i : Nat) (p : Option Bytes) : Option OutputMemory :=
  m.batchItems.bind fun slots =>
    if i < slots.length then some { m with batchItems := some (slots.set i p) } else none

/-- `batch_items[batch_count++] = copy`. -/
def pushItem (copy : Bytes) (m : OutputMemory) : Option OutputMemory := do
  let m ← m.setItem m.batchCount (some copy)
  some { m with batchCount := m.batchCount + 1 }

def freeBatchItems (m : OutputMemory) : Option OutputMemory := do
  let m ← (List.range m.batchCount).foldlM (fun m i => m.setItem i none) m
  some { m with batchCount := 0, batchStarted := false }

/-- `batch_ensure_capacity`; the new places are cleared by `memset`. -/
def batchEnsureCapacity (realloc : Bool) (needed : Nat) (m : OutputMemory) : Int × OutputMemory :=
  if needed ≤ m.batchCapacity then (0, m)
  else
    let newCapacity := growCapacity needed needed (if m.batchCapacity = 0 then 16 else m.batchCapacity)
    if !realloc then (-1, m)
    else
      let newItems := m.batchItems.getD [] ++ List.replicate (newCapacity - m.batchCapacity) none
      (0, { m with batchItems := some newItems, batchCapacity := newCapacity })

def batchStartIfNeeded (now : Option Timespec) (m : OutputMemory) : OutputMemory :=
  if m.batchStarted then m
  else match now with
    | none => m
    | some t => { m with batchStartedAt := t, batchStarted := true }

/-! ## The request body -/

/-- The loop over `body_len`. -/
def bodyLength (m : OutputMemory) : Option Nat :=
  (List.range m.batchCount).foldlM (fun len i => (m.item i).map fun s => len + (s.length + 1)) 2

/-- One turn of the second loop. -/
def appendItem (m : OutputMemory) {n : Nat} (body : Buffer n) (i : Nat) : Option (Buffer n) := do
  let body ← body.strcat (← m.item i)
  if i + 1 < m.batchCount then body.strcat (ascii ",") else some body

def assembleBody (m : OutputMemory) {n : Nat} (memory : Buffer n) : Option (Buffer n) := do
  let body ← memory.write 0 (ascii "[" ++ [0])
  let body ← (List.range m.batchCount).foldlM m.appendItem body
  body.strcat (ascii "]")

/-! ## Posting it -/

/-- `response_buf_t`. -/
structure ResponseBuf where
  data : Buffer 2048
  len : Nat

/-- `write_response_cb`. -/
def writeResponseCb (buf : ResponseBuf) (bytes : Bytes) : Option ResponseBuf := do
  let space := 2048 - buf.len - 1
  let kept := if bytes.length > space then bytes.take space else bytes
  let data ← buf.data.write buf.len kept
  let data ← data.write (buf.len + kept.length) [0]
  some ⟨data, buf.len + kept.length⟩

/-- How one `curl_easy_perform` goes: the calls of `write_response_cb`, and its end. -/
structure HttpAnswer where
  received : List Bytes
  outcome : HttpOutcome

/-- What `http_post_batch` asks the system for. The array `resp.data` is not
initialized. -/
structure PostCall where
  malloc : (size : Nat) → Option (Buffer size)
  curlInit : Bool
  respData : Buffer 2048
  answer : Nat → HttpAnswer

/-- What curl is told to send. -/
structure Request where
  url : Bytes
  headers : List Bytes
  body : Bytes
  timeout : Nat

inductive Action where
  | stdoutLine (line : Bytes)
  | fileLine (line : Bytes)
  | post (r : Request)
  | sleep (seconds : Option UInt32)
  | stderr (text : Bytes)

def request (m : OutputMemory) (body : Bytes) : Request where
  url := m.outputUrl.bytes
  headers := ascii "Content-Type: application/json" ::
    if m.authHeader.bytes ≠ [] then [m.authHeader.bytes] else []
  body := body
  timeout := 10

/-- What is said about a batch that the receiver refuses. -/
def refusal (code : Int) (response body : Bytes) : List Action :=
  [.stderr (ascii "syswatch: dropping HTTP batch due to client error " ++ decimal code.toNat ++
      ascii "\n"),
    .stderr (ascii "syswatch: response body: " ++ response ++ ascii "\n"),
    .stderr (ascii "syswatch: request body (" ++ decimal body.length ++ ascii " bytes): " ++
      body.take 500 ++ (if body.length > 500 then ascii "..." else []) ++ ascii "\n")]

/-- The loop over the attempts, with `left` of them to go. An undefined shift leaves
`none` as the time of a pause, and what is written down behind it is what follows if the
shift has some value. -/
def postLoop (m : OutputMemory) (answer : Nat → HttpAnswer) (body : Bytes) :
    Nat → Nat → Buffer 2048 → Option (Verdict × List Action)
  | 0, _, _ => some (.retry, [])
  | left + 1, attempt, data => do
    let data ← data.write 0 [0]
    let resp ← (answer attempt).received.foldlM writeResponseCb ⟨data, 0⟩
    let post := Action.post (m.request body)
    match verdict (answer attempt).outcome with
    | .delivered => some (.delivered, [post])
    | .refused =>
      let code := match (answer attempt).outcome with
        | .transportError => 0
        | .response code => code
      some (.refused, post :: refusal code (← resp.data.string?) body)
    | .retry =>
      let rest ← m.postLoop answer body left (attempt + 1) resp.data
      let pause := if left > 0 then [.sleep (backoffSeconds m.retryBackoffSeconds attempt)] else []
      some (rest.1, post :: (pause ++ rest.2))

/-- `attempt <= retry_max_attempts` holds this often; for `INT_MAX` the counter would
run over, long behind an undefined shift. -/
def maxPosts (m : OutputMemory) : Nat := (m.retryMaxAttempts.toInt + 1).toNat

def httpPostBatch (env : PostCall) (m : OutputMemory) :
    Option (Int × List Action × OutputMemory) :=
  if m.batchCount = 0 then some (0, [], m)
  else do
    let bodyLen ← m.bodyLength
    match env.malloc (bodyLen + 1) with
    | none => some (-1, [], m)
    | some memory =>
      let body ← m.assembleBody memory
      if !env.curlInit then some (-1, [], m)
      else
        let (v, actions) ← m.postLoop env.answer (← body.string?) m.maxPosts 0 env.respData
        let freed ← m.freeBatchItems
        match v with
        | .delivered => some (0, actions, freed)
        | .refused => some (0, actions, freed)
        | .retry =>
          let message := ascii "syswatch: dropping HTTP batch after " ++
            ascii (toString m.retryMaxAttempts.toInt) ++ ascii " retries\n"
          some (-1, actions ++ [.stderr message], freed)

/-! ## The interface -/

def maybeFlushHttpBatch (now : Option Timespec) (env : PostCall) (m : OutputMemory) :
    Option (Int × List Action × OutputMemory) :=
  if m.batchCount = 0 then some (0, [], m)
  else if Int32.ofNat m.batchCount ≥ m.batchSize then m.httpPostBatch env
  else if m.batchStarted ∧ m.batchIntervalSeconds > 0 ∧
      batchAgeSeconds now (m.view []) ≥ m.batchIntervalSeconds.toInt then m.httpPostBatch env
  else some (0, [], m)

/-- What `output_emit_event` asks the system for, in the order it does. -/
structure EmitCall where
  ageNow : Option Timespec
  first : PostCall
  startNow : Option Timespec
  realloc : Bool
  strdup : Bool
  second : PostCall

def outputEmitEvent (env : EmitCall) (m : OutputMemory) :
    Option Bytes → Option (Int × List Action × OutputMemory)
  | none => some (-1, [], m)
  | some line =>
    match m.mode with
    | .stdout => some (0, [.stdoutLine (cstr line)], m)
    | .file => if !m.fileHandle then some (-1, [], m) else some (0, [.fileLine (cstr line)], m)
    | .httpPost => do
      let (code, actions, m) ← m.maybeFlushHttpBatch env.ageNow env.first
      if code ≠ 0 then some (-1, actions, m)
      else
        let m := m.batchStartIfNeeded env.startNow
        let (room, m) := m.batchEnsureCapacity env.realloc (m.batchCount + 1)
        if room ≠ 0 then some (-1, actions, m)
        else if !env.strdup then some (-1, actions, m)
        else
          let m ← m.pushItem (cstr line)
          if Int32.ofNat m.batchCount ≥ m.batchSize then
            let (code, posted, m) ← m.httpPostBatch env.second
            some (code, actions ++ posted, m)
          else some (0, actions, m)

def outputFlush (env : PostCall) (m : OutputMemory) : Option (Int × List Action × OutputMemory) :=
  if m.mode = .httpPost then m.httpPostBatch env else some (0, [], m)

end OutputMemory
end Syswatch
