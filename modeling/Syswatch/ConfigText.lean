import Syswatch.Config
import Syswatch.Lib.Machine

/-! # What a configuration file says

A file is read on its own here, as the settings its lines make up to the first
line that is refused. What the loader leaves in the struct is the fold of these
settings, whether it accepts the file or not (`loadLines_eq`). -/

namespace Syswatch.ConfigText
open Lib.CText

/-! ## The keys

Every key has its section, its name in the file and its place in the struct. -/

/-- Keys with a fixed set of words. -/
inductive WordField where
  | configVersion
  | outputType
  | logLevel
  | logDestination
  deriving DecidableEq

/-- Keys with a whole number. -/
inductive IntField where
  | pollIntervalSeconds
  | batchSize
  | batchIntervalSeconds
  | retryMaxAttempts
  | retryBackoffSeconds
  deriving DecidableEq

/-- Keys with any text. -/
inductive TextField where
  | hostOverride
  | outputUrl
  | outputPath
  | outputAuthHeader
  | logPath
  deriving DecidableEq

/-- The metrics that `collect` switches on and off. -/
inductive Metric where
  | cpu
  | memory
  | disk
  | network
  | processes
  deriving DecidableEq

inductive Field where
  | word (f : WordField)
  | int (f : IntField)
  | text (f : TextField)
  | metric (m : Metric)
  | load
  deriving DecidableEq

def Field.all : List Field :=
  [.word .configVersion, .int .pollIntervalSeconds, .text .hostOverride, .word .outputType,
    .text .outputUrl, .text .outputPath, .int .batchSize, .int .batchIntervalSeconds,
    .int .retryMaxAttempts, .int .retryBackoffSeconds, .text .outputAuthHeader, .metric .cpu,
    .metric .memory, .metric .disk, .metric .network, .load, .metric .processes, .word .logLevel,
    .word .logDestination, .text .logPath]

def Field.configSection : Field → ConfigSection
  | .word .configVersion | .int .pollIntervalSeconds | .text .hostOverride => .none
  | .word .logLevel | .word .logDestination | .text .logPath => .log
  | .metric _ | .load => .collect
  | _ => .output

def Field.key : Field → Bytes
  | .word .configVersion => ascii "config_version"
  | .word .outputType => ascii "type"
  | .word .logLevel => ascii "level"
  | .word .logDestination => ascii "destination"
  | .int .pollIntervalSeconds => ascii "poll_interval_seconds"
  | .int .batchSize => ascii "batch_size"
  | .int .batchIntervalSeconds => ascii "batch_interval_seconds"
  | .int .retryMaxAttempts => ascii "retry_max_attempts"
  | .int .retryBackoffSeconds => ascii "retry_backoff_seconds"
  | .text .hostOverride => ascii "host_override"
  | .text .outputUrl => ascii "url"
  | .text .outputPath => ascii "path"
  | .text .outputAuthHeader => ascii "auth_header"
  | .text .logPath => ascii "path"
  | .metric .cpu => ascii "cpu"
  | .metric .memory => ascii "memory"
  | .metric .disk => ascii "disk"
  | .metric .network => ascii "network"
  | .metric .processes => ascii "processes"
  | .load => ascii "load"

def WordField.allowed : WordField → List Bytes
  | .configVersion => [ascii "1.0"]
  | .outputType => [ascii "stdout", ascii "file", ascii "http_post"]
  | .logLevel => [ascii "debug", ascii "info", ascii "warn", ascii "error"]
  | .logDestination => [ascii "stderr", ascii "file"]

def IntField.min : IntField → Int
  | .retryMaxAttempts | .retryBackoffSeconds => 0
  | _ => 1

def IntField.max : IntField → Int
  | .pollIntervalSeconds => 86400
  | .batchSize => 100000
  | .batchIntervalSeconds => 86400
  | .retryMaxAttempts => 100
  | .retryBackoffSeconds => 3600

def TextField.size : TextField → Nat
  | .hostOverride => 128
  | _ => 256

/-! ## The keys in the struct -/

def WordField.get (cfg : ConfigMemory) : WordField → Buffer 16
  | .configVersion => cfg.configVersion
  | .outputType => cfg.outputType
  | .logLevel => cfg.logLevel
  | .logDestination => cfg.logDestination

def WordField.set (cfg : ConfigMemory) (b : Buffer 16) : WordField → ConfigMemory
  | .configVersion => { cfg with configVersion := b }
  | .outputType => { cfg with outputType := b }
  | .logLevel => { cfg with logLevel := b }
  | .logDestination => { cfg with logDestination := b }

def IntField.get (cfg : ConfigMemory) : IntField → Int32
  | .pollIntervalSeconds => cfg.intervalSec
  | .batchSize => cfg.outputBatchSize
  | .batchIntervalSeconds => cfg.outputBatchIntervalSeconds
  | .retryMaxAttempts => cfg.outputRetryMaxAttempts
  | .retryBackoffSeconds => cfg.outputRetryBackoffSeconds

def IntField.set (cfg : ConfigMemory) (n : Int32) : IntField → ConfigMemory
  | .pollIntervalSeconds => { cfg with intervalSec := n }
  | .batchSize => { cfg with outputBatchSize := n }
  | .batchIntervalSeconds => { cfg with outputBatchIntervalSeconds := n }
  | .retryMaxAttempts => { cfg with outputRetryMaxAttempts := n }
  | .retryBackoffSeconds => { cfg with outputRetryBackoffSeconds := n }

def TextField.get (cfg : ConfigMemory) : (f : TextField) → Buffer f.size
  | .hostOverride => cfg.hostOverride
  | .outputUrl => cfg.outputUrl
  | .outputPath => cfg.outputPath
  | .outputAuthHeader => cfg.outputAuthHeader
  | .logPath => cfg.logPath

def TextField.set (cfg : ConfigMemory) : (f : TextField) → Buffer f.size → ConfigMemory
  | .hostOverride, b => { cfg with hostOverride := b }
  | .outputUrl, b => { cfg with outputUrl := b }
  | .outputPath, b => { cfg with outputPath := b }
  | .outputAuthHeader, b => { cfg with outputAuthHeader := b }
  | .logPath, b => { cfg with logPath := b }

def Metric.shown (cfg : ConfigMemory) : Metric → Bool
  | .cpu => cfg.showCpu
  | .memory => cfg.showMemory
  | .disk => cfg.showDisk
  | .network => cfg.showNetwork
  | .processes => cfg.showProcesses

def Metric.set (cfg : ConfigMemory) (flag : Bool) : Metric → ConfigMemory
  | .cpu => { cfg with showCpu := flag }
  | .memory => { cfg with showMemory := flag }
  | .disk => { cfg with showDisk := flag }
  | .network => { cfg with showNetwork := flag }
  | .processes => { cfg with showProcesses := flag }

@[simp] theorem WordField.get_set (cfg : ConfigMemory) (b : Buffer 16) (f g : WordField) :
    f.get (g.set cfg b) = if f = g then b else f.get cfg := by
  cases f <;> cases g <;> rfl

@[simp] theorem TextField.get_set (cfg : ConfigMemory) (f : TextField) (b : Buffer f.size) :
    f.get (f.set cfg b) = b := by
  cases f <;> rfl

theorem TextField.get_set_ne (cfg : ConfigMemory) {f g : TextField} (h : f ≠ g)
    (b : Buffer g.size) : f.get (g.set cfg b) = f.get cfg := by
  cases f <;> cases g <;> first | rfl | exact absurd rfl h

/-- Every `char` array has a NUL as its last byte. -/
structure Terminated (cfg : ConfigMemory) : Prop where
  path : cfg.configPath.Terminated
  word : ∀ f : WordField, (f.get cfg).Terminated
  text : ∀ f : TextField, (f.get cfg).Terminated

/-- Only the path of the file may differ. -/
theorem Terminated.frame {cfg cfg' : ConfigMemory} (h : Terminated cfg)
    (hpath : cfg'.configPath.Terminated) (hword : ∀ f : WordField, f.get cfg' = f.get cfg)
    (htext : ∀ f : TextField, f.get cfg' = f.get cfg) : Terminated cfg' where
  path := hpath
  word f := hword f ▸ h.word f
  text f := htext f ▸ h.text f

theorem terminated_initDefaultConfig : Terminated .initDefaultConfig where
  path := by decide +kernel
  word f := by cases f <;> decide +kernel
  text f := by cases f <;> decide +kernel

/-! ## Settings -/

/-- A key with its value. -/
inductive Setting where
  | word (f : WordField) (w : Bytes)
  | int (f : IntField) (n : Int32)
  | text (f : TextField) (s : Bytes)
  | metric (m : Metric) (flag : Bool)
  | load (flag : Bool)
  deriving DecidableEq

def Setting.field : Setting → Field
  | .word f _ => .word f
  | .int f _ => .int f
  | .text f _ => .text f
  | .metric m _ => .metric m
  | .load _ => .load

/-- What the setting does to the struct. -/
def Setting.apply (cfg : ConfigMemory) : Setting → ConfigMemory
  | .word f w => f.set cfg ((f.get cfg).strncpy w 15)
  | .int f n => f.set cfg n
  | .text f s => f.set cfg ((f.get cfg).strncpy s (f.size - 1))
  | .metric m flag => m.set cfg flag
  | .load _ => cfg

/-- A copy never reaches the last byte of its array. -/
theorem Terminated.apply {cfg : ConfigMemory} (h : Terminated cfg) (s : Setting) :
    Terminated (s.apply cfg) := by
  have hpath : (s.apply cfg).configPath = cfg.configPath := by
    cases s with
    | word f w => cases f <;> rfl
    | int f n => cases f <;> rfl
    | text f t => cases f <;> rfl
    | metric m flag => cases m <;> rfl
    | load flag => rfl
  refine ⟨hpath ▸ h.path, ?_, ?_⟩
  · intro g
    cases s with
    | word f w =>
      rw [Setting.apply, WordField.get_set]
      split
      · exact (h.word f).strncpy w
      · exact h.word g
    | int f n => cases f <;> exact h.word g
    | text f t => cases f <;> exact h.word g
    | metric m flag => cases m <;> exact h.word g
    | load flag => exact h.word g
  · intro g
    cases s with
    | word f w => cases f <;> exact h.text g
    | int f n => cases f <;> exact h.text g
    | text f t =>
      by_cases hg : g = f
      · subst hg
        rw [Setting.apply, TextField.get_set]
        exact (h.text g).strncpy t
      · rw [Setting.apply, TextField.get_set_ne cfg hg]
        exact h.text g
    | metric m flag => cases m <;> exact h.text g
    | load flag => exact h.text g

/-- The values that the loader takes. -/
def Setting.Valid : Setting → Prop
  | .word f w => w ∈ f.allowed
  | .int f n => f.min ≤ n.toInt ∧ n.toInt ≤ f.max
  | _ => True

/-- The key's value, if it is one that the key takes. -/
def Field.read (value : Bytes) : Field → Option Setting
  | .word f => if value ∈ f.allowed then some (.word f value) else none
  | .int f => (parseIntValue value f.min f.max).map (.int f)
  | .text f => some (.text f value)
  | .metric m => (parseBoolValue value).map (.metric m)
  | .load => (parseBoolValue value).map .load

def fieldOf (sec : ConfigSection) (key : Bytes) : Option Field :=
  Field.all.find? fun f => f.configSection = sec ∧ f.key = key

def readSetting (sec : ConfigSection) (key value : Bytes) : Option Setting :=
  (fieldOf sec key).bind fun f => f.read value

theorem mem_all (f : Field) : f ∈ Field.all := by
  cases f <;> (try rename_i f; cases f) <;> decide

theorem fieldOf_self (f : Field) : fieldOf f.configSection f.key = some f := by
  cases f <;> (try rename_i f; cases f) <;> decide +kernel

/-- The keys of a section. -/
def keysOf (sec : ConfigSection) : List Bytes :=
  (Field.all.filter fun f => f.configSection = sec).map Field.key

theorem readSetting_unknown {sec : ConfigSection} {key : Bytes} (h : key ∉ keysOf sec)
    (value : Bytes) : readSetting sec key value = none := by
  have hnone : fieldOf sec key = none := by
    rw [fieldOf, List.find?_eq_none]
    intro f hf hp
    obtain ⟨hs, hk⟩ := of_decide_eq_true hp
    exact h (List.mem_map.mpr ⟨f, List.mem_filter.mpr ⟨hf, decide_eq_true hs⟩, hk⟩)
  rw [readSetting, hnone]
  rfl

theorem readSetting_self (f : Field) (value : Bytes) :
    readSetting f.configSection f.key value = f.read value := by
  rw [readSetting, fieldOf_self]
  rfl

/-! ## The setters against the settings -/

theorem word_spec {f : WordField} {value err : Bytes} {cfg cfg' : ConfigMemory} {p : Prop}
    [Decidable p] (hp : p ↔ value ∉ f.allowed) (hcfg : cfg' = (Setting.word f value).apply cfg) :
    (if p then .error err else .ok cfg' : Except Bytes ConfigMemory).toOption =
      (Field.read value (.word f)).map fun s => s.apply cfg := by
  simp only [Field.read]
  by_cases hv : value ∈ f.allowed
  · rw [if_pos hv, if_neg (fun h => hp.mp h hv), hcfg]
    rfl
  · rw [if_neg hv, if_pos (hp.mpr hv)]
    rfl

theorem int_spec (f : IntField) (what value : Bytes) (lineNo : Nat) (cfg : ConfigMemory) :
    (setInt what value f.min f.max lineNo fun n => f.set cfg n).toOption =
      (Field.read value (.int f)).map fun s => s.apply cfg := by
  simp only [setInt, Field.read]
  cases parseIntValue value f.min f.max <;> rfl

/-- A setter's branch for the key of `f`. -/
theorem known_spec (f : Field) {r : Option ConfigMemory} {value : Bytes} {cfg : ConfigMemory}
    (h : r = (f.read value).map fun s => s.apply cfg) :
    r = (readSetting f.configSection f.key value).map fun s => s.apply cfg := by
  rw [readSetting_self, h]

theorem unknown_spec {sec : ConfigSection} {key : Bytes} (h : key ∉ keysOf sec) (value err : Bytes)
    (cfg : ConfigMemory) : (.error err : Except Bytes ConfigMemory).toOption =
      (readSetting sec key value).map fun s => s.apply cfg := by
  rw [readSetting_unknown h]
  rfl

theorem setScalarTopLevel_spec (cfg : ConfigMemory) (key value : Bytes) (lineNo : Nat) :
    (setScalarTopLevel cfg key value lineNo).toOption =
      (readSetting .none key value).map fun s => s.apply cfg := by
  unfold setScalarTopLevel
  by_cases hversion : key = ascii "config_version"
  · rw [if_pos hversion, hversion]
    exact known_spec (.word .configVersion) (word_spec (by simp [WordField.allowed]) rfl)
  by_cases hpoll : key = ascii "poll_interval_seconds"
  · rw [if_neg hversion, if_pos hpoll, hpoll]
    exact known_spec (.int .pollIntervalSeconds) (int_spec .pollIntervalSeconds _ value lineNo cfg)
  by_cases hhost : key = ascii "host_override"
  · rw [if_neg hversion, if_neg hpoll, if_pos hhost, hhost]
    exact known_spec (.text .hostOverride) rfl
  rw [if_neg hversion, if_neg hpoll, if_neg hhost]
  refine unknown_spec ?_ value _ cfg
  rw [show keysOf .none = [ascii "config_version", ascii "poll_interval_seconds",
    ascii "host_override"] from rfl]
  simp [hversion, hpoll, hhost]

theorem setOutputKey_spec (cfg : ConfigMemory) (key value : Bytes) (lineNo : Nat) :
    (setOutputKey cfg key value lineNo).toOption =
      (readSetting .output key value).map fun s => s.apply cfg := by
  unfold setOutputKey
  by_cases htype : key = ascii "type"
  · rw [if_pos htype, htype]
    exact known_spec (.word .outputType) (word_spec (by simp [WordField.allowed]) rfl)
  rw [if_neg htype]
  by_cases hurl : key = ascii "url"
  · rw [if_pos hurl, hurl]
    exact known_spec (.text .outputUrl) rfl
  rw [if_neg hurl]
  by_cases hpath : key = ascii "path"
  · rw [if_pos hpath, hpath]
    exact known_spec (.text .outputPath) rfl
  rw [if_neg hpath]
  by_cases hsize : key = ascii "batch_size"
  · rw [if_pos hsize, hsize]
    exact known_spec (.int .batchSize) (int_spec .batchSize _ value lineNo cfg)
  rw [if_neg hsize]
  by_cases hinterval : key = ascii "batch_interval_seconds"
  · rw [if_pos hinterval, hinterval]
    exact known_spec (.int .batchIntervalSeconds) (int_spec .batchIntervalSeconds _ value lineNo cfg)
  rw [if_neg hinterval]
  by_cases hretry : key = ascii "retry_max_attempts"
  · rw [if_pos hretry, hretry]
    exact known_spec (.int .retryMaxAttempts) (int_spec .retryMaxAttempts _ value lineNo cfg)
  rw [if_neg hretry]
  by_cases hbackoff : key = ascii "retry_backoff_seconds"
  · rw [if_pos hbackoff, hbackoff]
    exact known_spec (.int .retryBackoffSeconds) (int_spec .retryBackoffSeconds _ value lineNo cfg)
  rw [if_neg hbackoff]
  by_cases hauth : key = ascii "auth_header"
  · rw [if_pos hauth, hauth]
    exact known_spec (.text .outputAuthHeader) rfl
  rw [if_neg hauth]
  refine unknown_spec ?_ value _ cfg
  rw [show keysOf .output = [ascii "type", ascii "url", ascii "path", ascii "batch_size",
    ascii "batch_interval_seconds", ascii "retry_max_attempts", ascii "retry_backoff_seconds",
    ascii "auth_header"] from rfl]
  simp [htype, hurl, hpath, hsize, hinterval, hretry, hbackoff, hauth]

theorem setLogKey_spec (cfg : ConfigMemory) (key value : Bytes) (lineNo : Nat) :
    (setLogKey cfg key value lineNo).toOption =
      (readSetting .log key value).map fun s => s.apply cfg := by
  unfold setLogKey
  by_cases hlevel : key = ascii "level"
  · rw [if_pos hlevel, hlevel]
    exact known_spec (.word .logLevel) (word_spec (by simp [WordField.allowed]) rfl)
  rw [if_neg hlevel]
  by_cases hdestination : key = ascii "destination"
  · rw [if_pos hdestination, hdestination]
    exact known_spec (.word .logDestination) (word_spec (by simp [WordField.allowed]) rfl)
  rw [if_neg hdestination]
  by_cases hpath : key = ascii "path"
  · rw [if_pos hpath, hpath]
    exact known_spec (.text .logPath) rfl
  rw [if_neg hpath]
  refine unknown_spec ?_ value _ cfg
  rw [show keysOf .log = [ascii "level", ascii "destination", ascii "path"] from rfl]
  simp [hlevel, hdestination, hpath]

theorem flag_spec {value err : Bytes} {cfg : ConfigMemory} {cfg' : Bool → ConfigMemory}
    (f : Field) (set : Bool → Setting) (hf : f.read value = (parseBoolValue value).map set)
    (hset : ∀ flag, cfg' flag = (set flag).apply cfg) :
    (match parseBoolValue value with
      | none => .error err
      | some flag => .ok (cfg' flag) : Except Bytes ConfigMemory).toOption =
      (f.read value).map fun s => s.apply cfg := by
  rw [hf]
  cases parseBoolValue value with
  | none => rfl
  | some flag => exact congrArg some (hset flag)

theorem setCollectKey_spec (cfg : ConfigMemory) (key value : Bytes) (lineNo : Nat) :
    (setCollectKey cfg key value lineNo).toOption =
      (readSetting .collect key value).map fun s => s.apply cfg := by
  unfold setCollectKey
  by_cases hcpu : key = ascii "cpu"
  · simp only [if_pos hcpu]
    rw [hcpu]
    exact known_spec (.metric .cpu) (flag_spec _ (.metric .cpu) rfl fun _ => rfl)
  by_cases hmemory : key = ascii "memory"
  · simp only [if_neg hcpu, if_pos hmemory]
    rw [hmemory]
    exact known_spec (.metric .memory) (flag_spec _ (.metric .memory) rfl fun _ => rfl)
  by_cases hdisk : key = ascii "disk"
  · simp only [if_neg hcpu, if_neg hmemory, if_pos hdisk]
    rw [hdisk]
    exact known_spec (.metric .disk) (flag_spec _ (.metric .disk) rfl fun _ => rfl)
  by_cases hnetwork : key = ascii "network"
  · simp only [if_neg hcpu, if_neg hmemory, if_neg hdisk, if_pos hnetwork]
    rw [hnetwork]
    exact known_spec (.metric .network) (flag_spec _ (.metric .network) rfl fun _ => rfl)
  by_cases hload : key = ascii "load"
  · simp only [if_neg hcpu, if_neg hmemory, if_neg hdisk, if_neg hnetwork, if_pos hload]
    rw [hload]
    exact known_spec .load (flag_spec _ .load rfl fun _ => rfl)
  by_cases hprocesses : key = ascii "processes"
  · simp only [if_neg hcpu, if_neg hmemory, if_neg hdisk, if_neg hnetwork, if_neg hload,
      if_pos hprocesses]
    rw [hprocesses]
    exact known_spec (.metric .processes) (flag_spec _ (.metric .processes) rfl fun _ => rfl)
  have hunknown : key ∉ keysOf .collect := by
    rw [show keysOf .collect = [ascii "cpu", ascii "memory", ascii "disk", ascii "network",
      ascii "load", ascii "processes"] from rfl]
    simp [hcpu, hmemory, hdisk, hnetwork, hload, hprocesses]
  simp only [if_neg hcpu, if_neg hmemory, if_neg hdisk, if_neg hnetwork, if_neg hload,
    if_neg hprocesses]
  rw [readSetting_unknown hunknown]
  cases parseBoolValue value <;> rfl

/-! ## Lines and files -/

/-- A line by itself: the section after it and what it sets, unless it is refused. -/
def readEntry (sec : ConfigSection) (l : ConfigLine) : Option (ConfigSection × Option Setting) :=
  if l.indentSpaces = 0 then
    if l.value = [] ∧ l.key = ascii "output" then some (.output, none)
    else if l.value = [] ∧ l.key = ascii "collect" then some (.collect, none)
    else if l.value = [] ∧ l.key = ascii "log" then some (.log, none)
    else (readSetting .none l.key l.value).map fun s => (.none, some s)
  else if sec = .none then none
  else (readSetting sec l.key l.value).map fun s => (sec, some s)

def readLine (sec : ConfigSection) (line : Bytes) : Option (ConfigSection × Option Setting) :=
  (parseLine 0 line).toOption.bind fun
    | none => some (sec, none)
    | some l => readEntry sec l

/-- The settings of the lines before the first one that is refused, and whether
there is none. -/
def readLines : ConfigSection → List Bytes → List Setting × Bool
  | _, [] => ([], true)
  | sec, line :: rest =>
    match readLine sec line with
    | none => ([], false)
    | some (sec, s) => (s.toList ++ (readLines sec rest).1, (readLines sec rest).2)

/-- What a line sets, in the struct. -/
def applyTo (cfg : ConfigMemory) (ss : List Setting) : ConfigMemory := ss.foldl Setting.apply cfg

theorem parseLine_lineNo (lineNo : Nat) (line : Bytes) :
    (parseLine lineNo line).toOption = (parseLine 0 line).toOption := by
  unfold parseLine
  dsimp only
  split_ifs <;> rfl

theorem loadEntry_spec (lineNo : Nat) (sec : ConfigSection) (cfg : ConfigMemory) (l : ConfigLine) :
    (loadEntry lineNo sec cfg l).toOption =
      (readEntry sec l).map fun r => (r.1, applyTo cfg r.2.toList) := by
  have hmap (r : Except Bytes ConfigMemory) (sec : ConfigSection) :
      (r.map fun cfg => (sec, cfg)).toOption = r.toOption.map fun cfg => (sec, cfg) := by
    cases r <;> rfl
  unfold loadEntry readEntry
  split_ifs with hindent houtput hcollect hlog hnone
  · rfl
  · rfl
  · rfl
  · rw [hmap, setScalarTopLevel_spec, Option.map_map, Option.map_map]
    rfl
  · rw [hnone]
    rfl
  · cases sec with
    | none => exact absurd rfl hnone
    | output =>
      dsimp only
      rw [hmap, setOutputKey_spec, Option.map_map, Option.map_map]
      rfl
    | collect =>
      dsimp only
      rw [hmap, setCollectKey_spec, Option.map_map, Option.map_map]
      rfl
    | log =>
      dsimp only
      rw [hmap, setLogKey_spec, Option.map_map, Option.map_map]
      rfl

theorem loadLine_spec (lineNo : Nat) (sec : ConfigSection) (cfg : ConfigMemory) (line : Bytes) :
    (loadLine lineNo sec cfg line).toOption =
      (readLine sec line).map fun r => (r.1, applyTo cfg r.2.toList) := by
  unfold loadLine readLine
  rw [← parseLine_lineNo lineNo]
  cases parseLine lineNo line with
  | error err => rfl
  | ok l =>
    cases l with
    | none => rfl
    | some l => exact loadEntry_spec lineNo sec cfg l

theorem readLines_refused {sec : ConfigSection} {line : Bytes} (h : readLine sec line = none)
    (rest : List Bytes) : readLines sec (line :: rest) = ([], false) := by
  rw [readLines, h]

theorem readLines_read {sec : ConfigSection} {line : Bytes} {r : ConfigSection × Option Setting}
    (h : readLine sec line = some r) (rest : List Bytes) : readLines sec (line :: rest) =
      (r.2.toList ++ (readLines r.1 rest).1, (readLines r.1 rest).2) := by
  rw [readLines, h]

theorem readEntry_setting {sec : ConfigSection} {l : ConfigLine}
    {r : ConfigSection × Option Setting} (h : readEntry sec l = some r) {s : Setting}
    (hs : s ∈ r.2) : ∃ target, readSetting target l.key l.value = some s := by
  have hset {target next : ConfigSection}
      (hr : (readSetting target l.key l.value).map (fun s => (next, some s)) = some r) :
      ∃ target, readSetting target l.key l.value = some s := by
    obtain ⟨t, ht, rfl⟩ := Option.map_eq_some_iff.mp hr
    cases hs
    exact ⟨target, ht⟩
  unfold readEntry at h
  split_ifs at h
  · cases h
    cases hs
  · cases h
    cases hs
  · cases h
    cases hs
  · exact hset h
  · exact hset h

/-- Every setting stands on a line, with the key and the value of that line. -/
theorem mem_readLines {sec : ConfigSection} {lines : List Bytes} {s : Setting}
    (hs : s ∈ (readLines sec lines).1) : ∃ line ∈ lines, ∃ l target,
      parseLine 0 line = .ok (some l) ∧ readSetting target l.key l.value = some s := by
  induction lines generalizing sec with
  | nil => cases hs
  | cons line rest ih =>
    cases hline : readLine sec line with
    | none =>
      rw [readLines_refused hline] at hs
      cases hs
    | some r =>
      rw [readLines_read hline] at hs
      rcases List.mem_append.mp hs with hs | hs
      · obtain ⟨found, hfound, hr⟩ := Option.bind_eq_some_iff.mp hline
        have hok : parseLine 0 line = .ok found := by
          cases hp : parseLine 0 line with
          | error err =>
            rw [hp] at hfound
            cases hfound
          | ok l =>
            rw [hp] at hfound
            cases hfound
            rfl
        cases found with
        | none =>
          cases hr
          cases hs
        | some l =>
          obtain ⟨target, ht⟩ := readEntry_setting hr (Option.mem_toList.mp hs)
          exact ⟨line, by simp, l, target, hok, ht⟩
      · obtain ⟨line', hmem, rest'⟩ := ih hs
        exact ⟨line', by simp [hmem], rest'⟩

/-- **The loader is the fold of what the file says.** Accepted or not, the struct
holds the settings of the lines that were read. -/
theorem loadLines_eq (lineNo : Nat) (sec : ConfigSection) (cfg : ConfigMemory)
    (lines : List Bytes) :
    (loadLines lineNo sec cfg lines).2.2 = applyTo cfg (readLines sec lines).1 ∧
      (loadLines lineNo sec cfg lines).1 = (if (readLines sec lines).2 then 0 else -1) ∧
      ((loadLines lineNo sec cfg lines).2.1 = none ↔ (readLines sec lines).2 = true) := by
  induction lines generalizing lineNo sec cfg with
  | nil => exact ⟨rfl, rfl, iff_of_true rfl rfl⟩
  | cons line rest ih =>
    have hline := loadLine_spec (lineNo + 1) sec cfg line
    rw [loadLines]
    cases hload : loadLine (lineNo + 1) sec cfg line with
    | error err =>
      rw [hload] at hline
      rw [readLines_refused (Option.map_eq_none_iff.mp hline.symm)]
      exact ⟨rfl, rfl, by simp⟩
    | ok next =>
      rw [hload] at hline
      obtain ⟨r, hr, rfl⟩ := Option.map_eq_some_iff.mp hline.symm
      obtain ⟨hcfg, hcode, herr⟩ := ih (lineNo + 1) r.1 (applyTo cfg r.2.toList)
      rw [readLines_read hr]
      exact ⟨by rw [hcfg, applyTo, applyTo, applyTo, List.foldl_append], hcode, herr⟩

/-- The settings of a text, read in pieces as `fgets` delivers it. -/
def settingsOf (text : Bytes) : List Setting := (readLines .none (fgetsAll 1024 [] text)).1

/-- Every line of the text is accepted. -/
def Accepted (text : Bytes) : Prop := (readLines .none (fgetsAll 1024 [] text)).2 = true

theorem load_eq {files : Files} {path text : Bytes} (hread : files.read path = some text)
    (cfg : ConfigMemory) :
    (loadConfigFile files path cfg).2.2 = applyTo cfg (settingsOf text) ∧
      ((loadConfigFile files path cfg).1 = 0 ↔ Accepted text) ∧
      ((loadConfigFile files path cfg).2.1 = none ↔ Accepted text) := by
  obtain ⟨hcfg, hcode, herr⟩ := loadLines_eq 0 .none cfg (fgetsAll 1024 [] text)
  rw [loadConfigFile, hread]
  refine ⟨hcfg, ?_, herr⟩
  rw [Accepted, hcode]
  split <;> simp_all

end Syswatch.ConfigText
