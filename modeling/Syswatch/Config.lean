import Mathlib.Data.List.DropRight
import Syswatch.Output

/-! # The configuration and its file (`config.c`, `syswatch.h`)

The loader writes into the struct in place, so that the struct is modelled as
memory here, every `char` array with all its bytes. The pointers that `main`
passes are never NULL. -/

namespace Syswatch
open Lib.CText

/-- `syswatch_config_t`. -/
structure ConfigMemory where
  intervalSec : Int32
  iterations : Int32
  csvMode : Bool
  showCpu : Bool
  showMemory : Bool
  showDisk : Bool
  showNetwork : Bool
  showProcesses : Bool
  showDiskDetails : Bool
  showNetworkDetails : Bool
  includeLoopback : Bool
  processSort : ProcessSortMode
  topN : Int32
  configPath : Buffer 256
  validateOnly : Bool
  configVersion : Buffer 16
  outputType : Buffer 16
  outputUrl : Buffer 256
  outputPath : Buffer 256
  outputAuthHeader : Buffer 256
  outputBatchSize : Int32
  outputBatchIntervalSeconds : Int32
  outputRetryMaxAttempts : Int32
  outputRetryBackoffSeconds : Int32
  logLevel : Buffer 16
  logDestination : Buffer 16
  logPath : Buffer 256
  hostOverride : Buffer 128
  deriving DecidableEq

/-- After `memset(cfg, 0, sizeof(*cfg))`. -/
def ConfigMemory.zero : ConfigMemory where
  intervalSec := 0
  iterations := 0
  csvMode := false
  showCpu := false
  showMemory := false
  showDisk := false
  showNetwork := false
  showProcesses := false
  showDiskDetails := false
  showNetworkDetails := false
  includeLoopback := false
  processSort := .cpu
  topN := 0
  configPath := .zero 256
  validateOnly := false
  configVersion := .zero 16
  outputType := .zero 16
  outputUrl := .zero 256
  outputPath := .zero 256
  outputAuthHeader := .zero 256
  outputBatchSize := 0
  outputBatchIntervalSeconds := 0
  outputRetryMaxAttempts := 0
  outputRetryBackoffSeconds := 0
  logLevel := .zero 16
  logDestination := .zero 16
  logPath := .zero 256
  hostOverride := .zero 128

def DEFAULT_REFRESH_INTERVAL : Int32 := 1
def DEFAULT_ITERATIONS : Int32 := 0
def DEFAULT_TOP_N : Int32 := 5

/-- `init_default_config`; what it sets to the value of `memset` is left out. -/
def ConfigMemory.initDefaultConfig : ConfigMemory :=
  let cfg := ConfigMemory.zero
  { cfg with
    intervalSec := DEFAULT_REFRESH_INTERVAL
    iterations := DEFAULT_ITERATIONS
    configVersion := cfg.configVersion.strncpy (ascii "1.0") 15
    outputType := cfg.outputType.strncpy (ascii "stdout") 15
    logLevel := cfg.logLevel.strncpy (ascii "info") 15
    logDestination := cfg.logDestination.strncpy (ascii "stderr") 15
    showCpu := true
    showMemory := true
    showDisk := true
    showNetwork := true
    processSort := .cpu
    topN := DEFAULT_TOP_N }

/-- The struct as the running program reads it. -/
def ConfigMemory.view (cfg : ConfigMemory) : SyswatchConfig where
  intervalSec := cfg.intervalSec
  iterations := cfg.iterations
  showCpu := cfg.showCpu
  showMemory := cfg.showMemory
  showDisk := cfg.showDisk
  showNetwork := cfg.showNetwork
  showProcesses := cfg.showProcesses
  includeLoopback := cfg.includeLoopback
  outputType := CString.ofBytes 16 cfg.outputType.text
  outputUrl := CString.ofBytes 256 cfg.outputUrl.text
  outputPath := CString.ofBytes 256 cfg.outputPath.text
  outputAuthHeader := CString.ofBytes 256 cfg.outputAuthHeader.text
  outputBatchSize := cfg.outputBatchSize
  outputBatchIntervalSeconds := cfg.outputBatchIntervalSeconds
  outputRetryMaxAttempts := cfg.outputRetryMaxAttempts
  outputRetryBackoffSeconds := cfg.outputRetryBackoffSeconds
  hostOverride := CString.ofBytes 128 cfg.hostOverride.text

example : ConfigMemory.initDefaultConfig.view = initDefaultConfig := by decide +kernel

/-! ## Values -/

/-- `parse_int_value` and `parse_int_in_range`: a whole number within the bounds. -/
def parseBoundedInt (text : Bytes) (minValue maxValue : Int) : Option Int32 :=
  let r := strtol text
  if r.range ∨ !r.converted ∨ r.rest ≠ [] ∨ r.value < minValue ∨ r.value > maxValue then none
  else some (Int32.ofInt r.value)

def parseIntValue (text : Bytes) (minValue maxValue : Int) : Option Int32 :=
  parseBoundedInt text minValue maxValue

def parseBoolValue (text : Bytes) : Option Bool :=
  if text = ascii "true" then some true
  else if text = ascii "false" then some false
  else none

/-! ## One key

A key that is refused leaves the struct as it was. -/

/-- `"config error at line %d: "` and what is wrong. -/
def lineError (lineNo : Nat) (what : Bytes) : Bytes :=
  ascii "config error at line " ++ decimal lineNo ++ ascii ": " ++ what

/-- `"... '%s'"`. -/
def gotText (what value : Bytes) : Bytes := what ++ ascii " '" ++ value ++ ascii "'"

/-- A key with a whole number. -/
def setInt (what value : Bytes) (minValue maxValue : Int) (lineNo : Nat)
    (set : Int32 → ConfigMemory) : Except Bytes ConfigMemory :=
  match parseIntValue value minValue maxValue with
  | none => .error (lineError lineNo (gotText what value))
  | some n => .ok (set n)

/-- `set_scalar_top_level`. -/
def setScalarTopLevel (cfg : ConfigMemory) (key value : Bytes) (lineNo : Nat) :
    Except Bytes ConfigMemory :=
  if key = ascii "config_version" then
    if value ≠ ascii "1.0" then
      .error (lineError lineNo (gotText (ascii "unsupported config_version") value))
    else .ok { cfg with configVersion := cfg.configVersion.strncpy value 15 }
  else if key = ascii "poll_interval_seconds" then
    setInt (ascii "poll_interval_seconds must be a positive integer, got") value 1 86400 lineNo
      fun n => { cfg with intervalSec := n }
  else if key = ascii "host_override" then
    .ok { cfg with hostOverride := cfg.hostOverride.strncpy value 127 }
  else .error (lineError lineNo (gotText (ascii "unknown key") key))

/-- `set_output_key`. -/
def setOutputKey (cfg : ConfigMemory) (key value : Bytes) (lineNo : Nat) :
    Except Bytes ConfigMemory :=
  if key = ascii "type" then
    if value ≠ ascii "stdout" ∧ value ≠ ascii "file" ∧ value ≠ ascii "http_post" then
      .error (lineError lineNo
        (gotText (ascii "output.type must be stdout, file, or http_post, got") value))
    else .ok { cfg with outputType := cfg.outputType.strncpy value 15 }
  else if key = ascii "url" then
    .ok { cfg with outputUrl := cfg.outputUrl.strncpy value 255 }
  else if key = ascii "path" then
    .ok { cfg with outputPath := cfg.outputPath.strncpy value 255 }
  else if key = ascii "batch_size" then
    setInt (ascii "batch_size must be a positive integer, got") value 1 100000 lineNo
      fun n => { cfg with outputBatchSize := n }
  else if key = ascii "batch_interval_seconds" then
    setInt (ascii "batch_interval_seconds must be a positive integer, got") value 1 86400 lineNo
      fun n => { cfg with outputBatchIntervalSeconds := n }
  else if key = ascii "retry_max_attempts" then
    setInt (ascii "retry_max_attempts must be a non-negative integer, got") value 0 100 lineNo
      fun n => { cfg with outputRetryMaxAttempts := n }
  else if key = ascii "retry_backoff_seconds" then
    setInt (ascii "retry_backoff_seconds must be a non-negative integer, got") value 0 3600 lineNo
      fun n => { cfg with outputRetryBackoffSeconds := n }
  else if key = ascii "auth_header" then
    .ok { cfg with outputAuthHeader := cfg.outputAuthHeader.strncpy value 255 }
  else .error (lineError lineNo (gotText (ascii "unknown output key") key))

/-- `set_collect_key`. -/
def setCollectKey (cfg : ConfigMemory) (key value : Bytes) (lineNo : Nat) :
    Except Bytes ConfigMemory :=
  match parseBoolValue value with
  | none => .error (lineError lineNo
      (gotText (ascii "collect." ++ key ++ ascii " must be true or false, got") value))
  | some flag =>
    if key = ascii "cpu" then .ok { cfg with showCpu := flag }
    else if key = ascii "memory" then .ok { cfg with showMemory := flag }
    else if key = ascii "disk" then .ok { cfg with showDisk := flag }
    else if key = ascii "network" then .ok { cfg with showNetwork := flag }
    else if key = ascii "load" then .ok cfg
    else if key = ascii "processes" then .ok { cfg with showProcesses := flag }
    else .error (lineError lineNo (gotText (ascii "unknown collect key") key))

/-- `set_log_key`. -/
def setLogKey (cfg : ConfigMemory) (key value : Bytes) (lineNo : Nat) :
    Except Bytes ConfigMemory :=
  if key = ascii "level" then
    if value ≠ ascii "debug" ∧ value ≠ ascii "info" ∧ value ≠ ascii "warn" ∧
        value ≠ ascii "error" then
      .error (lineError lineNo
        (gotText (ascii "log.level must be debug, info, warn, or error, got") value))
    else .ok { cfg with logLevel := cfg.logLevel.strncpy value 15 }
  else if key = ascii "destination" then
    if value ≠ ascii "stderr" ∧ value ≠ ascii "file" then
      .error (lineError lineNo
        (gotText (ascii "log.destination must be stderr or file, got") value))
    else .ok { cfg with logDestination := cfg.logDestination.strncpy value 15 }
  else if key = ascii "path" then
    .ok { cfg with logPath := cfg.logPath.strncpy value 255 }
  else .error (lineError lineNo (gotText (ascii "unknown log key") key))

/-! ## One line -/

/-- What `ltrim` and `rtrim` cut off. -/
def isBlank (b : UInt8) : Bool := b == 32 || b == 9 || b == 13 || b == 10

def ltrim (text : Bytes) : Bytes := text.dropWhile isBlank

def rtrim (text : Bytes) : Bytes := text.rdropWhile isBlank

/-- The loop of `strip_inline_comment`: a `#` outside quotes ends the text at its
start and behind white space (`atWord`). -/
def cutComment : Bool → Bool → Bytes → Bytes
  | _, _, [] => []
  | inQuotes, atWord, c :: cs =>
    if c = 34 then c :: cutComment (!inQuotes) false cs
    else if !inQuotes && c == 35 && atWord then []
    else c :: cutComment inQuotes (isSpace c) cs

def stripInlineComment (text : Bytes) : Bytes := rtrim (cutComment false true text)

def unquote (text : Bytes) : Bytes :=
  if 2 ≤ text.length ∧ text.head? = some 34 ∧ text.getLast? = some 34 then text.tail.dropLast
  else text

/-- `config_section_t`. -/
inductive ConfigSection where
  | none
  | output
  | collect
  | log
  deriving DecidableEq

/-- A line that is neither blank nor a comment. -/
structure ConfigLine where
  indentSpaces : Nat
  key : Bytes
  value : Bytes
  deriving DecidableEq

/-- The body of the loop up to the key and its value; `none` is `continue`. -/
def parseLine (lineNo : Nat) (line : Bytes) : Except Bytes (Option ConfigLine) :=
  let text := cstr line
  let start := (ltrim text).head?
  if start = none ∨ start = some 10 ∨ start = some 35 then .ok none
  else
    let indentSpaces := (text.takeWhile (· == 32)).length
    if indentSpaces ≠ 0 ∧ indentSpaces ≠ 2 then
      .error (lineError lineNo (ascii "expected 0 or 2 leading spaces, got " ++ decimal indentSpaces))
    else
      let cursor := rtrim (ltrim (stripInlineComment (text.drop indentSpaces)))
      if cursor = [] then .ok none
      else if (58 : UInt8) ∉ cursor then .error (lineError lineNo (ascii "expected key: value"))
      else
        let key := cursor.takeWhile (· != 58)
        let value := (cursor.dropWhile (· != 58)).tail
        .ok (some ⟨indentSpaces, unquote (rtrim (ltrim key)), unquote (rtrim (ltrim value))⟩)

/-- The rest of the body: sections and keys. -/
def loadEntry (lineNo : Nat) (sec : ConfigSection) (cfg : ConfigMemory) (l : ConfigLine) :
    Except Bytes (ConfigSection × ConfigMemory) :=
  if l.indentSpaces = 0 then
    if l.value = [] ∧ l.key = ascii "output" then .ok (.output, cfg)
    else if l.value = [] ∧ l.key = ascii "collect" then .ok (.collect, cfg)
    else if l.value = [] ∧ l.key = ascii "log" then .ok (.log, cfg)
    else (setScalarTopLevel cfg l.key l.value lineNo).map fun cfg => (.none, cfg)
  else
    match sec with
    | .none => .error (lineError lineNo (gotText (ascii "nested key") l.key ++
        ascii " has no active section"))
    | .output => (setOutputKey cfg l.key l.value lineNo).map fun cfg => (.output, cfg)
    | .collect => (setCollectKey cfg l.key l.value lineNo).map fun cfg => (.collect, cfg)
    | .log => (setLogKey cfg l.key l.value lineNo).map fun cfg => (.log, cfg)

def loadLine (lineNo : Nat) (sec : ConfigSection) (cfg : ConfigMemory) (line : Bytes) :
    Except Bytes (ConfigSection × ConfigMemory) :=
  match parseLine lineNo line with
  | .error err => .error err
  | .ok none => .ok (sec, cfg)
  | .ok (some l) => loadEntry lineNo sec cfg l

/-! ## The file -/

/-- The `while` loop; the first line that is refused ends it, and what the lines
before it set stays. -/
def loadLines : Nat → ConfigSection → ConfigMemory → List Bytes →
    Int × Option Bytes × ConfigMemory
  | _, _, cfg, [] => (0, none, cfg)
  | lineNo, sec, cfg, line :: rest =>
    match loadLine (lineNo + 1) sec cfg line with
    | .error err => (-1, some err, cfg)
    | .ok next => loadLines (lineNo + 1) next.1 next.2 rest

/-- What can be read: standard input, and the file behind a path if it opens. -/
structure Files where
  stdin : Bytes
  fopen : Bytes → Option Bytes

/-- The text that `load_config_file` reads. -/
def Files.read (files : Files) (path : Bytes) : Option Bytes :=
  if path = ascii "-" then some files.stdin else files.fopen path

/-- `load_config_file(path, cfg, &err)`: the result, the text left in `*err`, and
the struct. -/
def loadConfigFile (files : Files) (path : Bytes) (cfg : ConfigMemory) :
    Int × Option Bytes × ConfigMemory :=
  match files.read path with
  | none => (-1, some (gotText (ascii "config error: failed to open") path), cfg)
  | some text => loadLines 0 .none cfg (fgetsAll 1024 [] text)

/-- `validate_config`. -/
def validateConfig (cfg : ConfigMemory) : Int × Option Bytes :=
  let fail (what : Bytes) : Int × Option Bytes := (-1, some (ascii "config error: " ++ what))
  if cfg.configVersion.text ≠ ascii "1.0" then
    fail (gotText (ascii "config_version must be '1.0', got") cfg.configVersion.text)
  else if cfg.intervalSec ≤ 0 then fail (ascii "poll_interval_seconds must be a positive integer")
  else if cfg.outputType.text = [] then fail (ascii "output.type is required")
  else if cfg.outputType.text = ascii "file" ∧ cfg.outputPath.text = [] then
    fail (ascii "output.path required for file output")
  else if cfg.outputType.text = ascii "http_post" ∧ cfg.outputUrl.text = [] then
    fail (ascii "output.url required for http_post")
  else if cfg.outputType.text = ascii "http_post" ∧ cfg.outputBatchSize ≤ 0 then
    fail (ascii "output.batch_size must be positive for http_post")
  else if cfg.outputType.text = ascii "http_post" ∧ cfg.outputBatchIntervalSeconds ≤ 0 then
    fail (ascii "output.batch_interval_seconds must be positive for http_post")
  else if cfg.logLevel.text ≠ [] ∧ cfg.logLevel.text ≠ ascii "debug" ∧
      cfg.logLevel.text ≠ ascii "info" ∧ cfg.logLevel.text ≠ ascii "warn" ∧
      cfg.logLevel.text ≠ ascii "error" then
    fail (gotText (ascii "invalid log.level") cfg.logLevel.text)
  else if cfg.logDestination.text ≠ [] ∧ cfg.logDestination.text ≠ ascii "stderr" ∧
      cfg.logDestination.text ≠ ascii "file" then
    fail (gotText (ascii "invalid log.destination") cfg.logDestination.text)
  else (0, none)

end Syswatch
