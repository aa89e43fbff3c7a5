import Syswatch.Args
import Syswatch.ConfigText

/-! # The configuration stays in range

Every option and every key checks its value before it is stored, and a string is
copied to all but the last byte of its array. So the bounds hold of the default
configuration, behind `parse_args`, and behind `load_config_file`, also where the
file is refused half way. -/

namespace Syswatch.ConfigRange
open Lib.CText ConfigText

structure InRange (cfg : ConfigMemory) : Prop where
  interval : 1 ≤ cfg.intervalSec.toInt ∧ cfg.intervalSec.toInt ≤ 86400
  iterations : 0 ≤ cfg.iterations.toInt ∧ cfg.iterations.toInt ≤ 1000000
  topN : 1 ≤ cfg.topN.toInt ∧ cfg.topN.toInt ≤ 1000
  batchSize : cfg.outputBatchSize = 0 ∨
    1 ≤ cfg.outputBatchSize.toInt ∧ cfg.outputBatchSize.toInt ≤ 100000
  batchInterval : cfg.outputBatchIntervalSeconds = 0 ∨
    1 ≤ cfg.outputBatchIntervalSeconds.toInt ∧ cfg.outputBatchIntervalSeconds.toInt ≤ 86400
  retryMaxAttempts :
    0 ≤ cfg.outputRetryMaxAttempts.toInt ∧ cfg.outputRetryMaxAttempts.toInt ≤ 100
  retryBackoff :
    0 ≤ cfg.outputRetryBackoffSeconds.toInt ∧ cfg.outputRetryBackoffSeconds.toInt ≤ 3600
  version : cfg.configVersion.text = ascii "1.0"
  outputType : cfg.outputType.text ∈ [ascii "stdout", ascii "file", ascii "http_post"]
  logLevel : cfg.logLevel.text ∈ [ascii "debug", ascii "info", ascii "warn", ascii "error"]
  logDestination : cfg.logDestination.text ∈ [ascii "stderr", ascii "file"]
  terminated : Terminated cfg

theorem inRange_initDefaultConfig : InRange .initDefaultConfig where
  interval := by decide
  iterations := by decide
  topN := by decide
  batchSize := .inl rfl
  batchInterval := .inl rfl
  retryMaxAttempts := by decide
  retryBackoff := by decide
  version := by decide +kernel
  outputType := by decide +kernel
  logLevel := by decide +kernel
  logDestination := by decide +kernel
  terminated := terminated_initDefaultConfig

/-! ## What is read is in range -/

theorem parseBoundedInt_range {text : Bytes} {lo hi : Int} {n : Int32}
    (hlo : -2 ^ 31 ≤ lo) (hhi : hi < 2 ^ 31) (h : parseBoundedInt text lo hi = some n) :
    lo ≤ n.toInt ∧ n.toInt ≤ hi := by
  unfold parseBoundedInt at h
  dsimp only at h
  split at h
  · cases h
  · next hok =>
    cases h
    simp only [not_or, not_lt] at hok
    obtain ⟨-, -, -, hge, hle⟩ := hok
    rw [Int32.toInt_ofInt_of_le (by omega) (by omega)]
    exact ⟨hge, hle⟩

theorem read_valid {f : Field} {value : Bytes} {s : Setting} (h : f.read value = some s) :
    s.Valid := by
  cases f with
  | word f =>
    simp only [Field.read, Option.ite_none_right_eq_some] at h
    obtain ⟨hw, hs⟩ := h
    cases hs
    exact hw
  | int f =>
    obtain ⟨n, hn, rfl⟩ := Option.map_eq_some_iff.mp h
    exact parseBoundedInt_range (by cases f <;> decide) (by cases f <;> decide) hn
  | text f =>
    cases h
    trivial
  | metric m =>
    obtain ⟨flag, -, rfl⟩ := Option.map_eq_some_iff.mp h
    trivial
  | load =>
    obtain ⟨flag, -, rfl⟩ := Option.map_eq_some_iff.mp h
    trivial

/-- Everything a file sets is valid. -/
theorem readLines_valid (sec : ConfigSection) (lines : List Bytes) :
    ∀ s ∈ (readLines sec lines).1, s.Valid := by
  intro s hs
  obtain ⟨line, -, l, target, -, hset⟩ := mem_readLines hs
  obtain ⟨f, -, hf⟩ := Option.bind_eq_some_iff.mp hset
  exact read_valid hf

/-! ## What is stored is in range -/

theorem InRange.apply {cfg : ConfigMemory} (h : InRange cfg) {s : Setting} (hs : s.Valid) :
    InRange (s.apply cfg) := by
  have hterm := h.terminated.apply s
  cases s with
  | word f w =>
    have htext : ((f.get cfg).strncpy w 15).text ∈ f.allowed := by
      have hfit : (cstr w).take 15 = w := by
        have hall : ∀ f : WordField, f.allowed.all fun w => (cstr w).take 15 = w := by
          intro f
          cases f <;> decide +kernel
        simpa using List.all_eq_true.mp (hall f) w hs
      rw [Buffer.text_strncpy (h.terminated.word f), hfit]
      exact hs
    cases f with
    | configVersion => exact { h with version := List.mem_singleton.mp htext, terminated := hterm }
    | outputType => exact { h with outputType := htext, terminated := hterm }
    | logLevel => exact { h with logLevel := htext, terminated := hterm }
    | logDestination => exact { h with logDestination := htext, terminated := hterm }
  | int f n =>
    cases f with
    | pollIntervalSeconds => exact { h with interval := hs, terminated := hterm }
    | batchSize => exact { h with batchSize := .inr hs, terminated := hterm }
    | batchIntervalSeconds => exact { h with batchInterval := .inr hs, terminated := hterm }
    | retryMaxAttempts => exact { h with retryMaxAttempts := hs, terminated := hterm }
    | retryBackoffSeconds => exact { h with retryBackoff := hs, terminated := hterm }
  | text f t => cases f <;> exact { h with terminated := hterm }
  | metric m flag => cases m <;> exact { h with terminated := hterm }
  | load flag => exact h

theorem InRange.applyTo {ss : List Setting} (hss : ∀ s ∈ ss, s.Valid) :
    ∀ {cfg : ConfigMemory}, InRange cfg → InRange (ConfigText.applyTo cfg ss) := by
  induction ss with
  | nil => exact fun h => h
  | cons s ss ih =>
    intro cfg h
    exact ih (fun t ht => hss t (by simp [ht])) (h.apply (hss s (by simp)))

/-- **A file keeps the configuration in range**, whether it is accepted, refused
at some line, or cannot be opened. -/
theorem InRange.load {cfg : ConfigMemory} (h : InRange cfg) (files : Files) (path : Bytes) :
    InRange (loadConfigFile files path cfg).2.2 := by
  cases hread : files.read path with
  | none =>
    rw [loadConfigFile, hread]
    exact h
  | some text =>
    rw [(load_eq hread cfg).1]
    exact h.applyTo (readLines_valid _ _)

theorem setIntOption_ok {what optarg : Bytes} {lo hi : Int} {set : Int32 → ConfigMemory}
    {cfg : ConfigMemory} (hlo : -2 ^ 31 ≤ lo) (hhi : hi < 2 ^ 31)
    (h : setIntOption what lo hi optarg set = .ok cfg) :
    ∃ n : Int32, cfg = set n ∧ lo ≤ n.toInt ∧ n.toInt ≤ hi := by
  unfold setIntOption at h
  split at h
  · cases h
  · next n hn =>
    cases h
    exact ⟨n, rfl, parseBoundedInt_range hlo hhi hn⟩

/-- No option touches an array that a key of the file names. -/
theorem handleOption_arrays {cfg cfg' : ConfigMemory} {o : Found}
    (hr : handleOption cfg o = .ok cfg') :
    (cfg'.configPath = cfg.configPath ∨ cfg'.configPath = cfg.configPath.strncpy o.optarg 255) ∧
      (∀ f : WordField, f.get cfg' = f.get cfg) ∧ ∀ f : TextField, f.get cfg' = f.get cfg := by
  obtain ⟨opt, optarg⟩ := o
  unfold handleOption at hr
  cases opt with
  | interval | iterations | top =>
    obtain ⟨n, rfl, -⟩ := setIntOption_ok (by decide) (by decide) hr
    exact ⟨.inl rfl, by rintro ⟨⟩ <;> rfl, by rintro ⟨⟩ <;> rfl⟩
  | config =>
    cases hr
    exact ⟨.inr rfl, by rintro ⟨⟩ <;> rfl, by rintro ⟨⟩ <;> rfl⟩
  | procSort =>
    dsimp only at hr
    split_ifs at hr <;> cases hr <;> exact ⟨.inl rfl, by rintro ⟨⟩ <;> rfl, by rintro ⟨⟩ <;> rfl⟩
  | help | version | unknown => cases hr
  | csv | processes | validateConfig | noCpu | noMemory | noDisk | noNetwork | includeLo
  | diskDetails | netDetails =>
    cases hr
    exact ⟨.inl rfl, by rintro ⟨⟩ <;> rfl, by rintro ⟨⟩ <;> rfl⟩

/-- **Every option keeps the configuration in range.** -/
theorem InRange.handleOption {cfg cfg' : ConfigMemory} (h : InRange cfg) {o : Found}
    (hr : handleOption cfg o = .ok cfg') : InRange cfg' := by
  have hterm : Terminated cfg' := by
    obtain ⟨hpath, hword, htext⟩ := handleOption_arrays hr
    refine h.terminated.frame ?_ hword htext
    rcases hpath with hpath | hpath
    · rw [hpath]
      exact h.terminated.path
    · rw [hpath]
      exact h.terminated.path.strncpy o.optarg
  obtain ⟨opt, optarg⟩ := o
  unfold Syswatch.handleOption at hr
  cases opt with
  | interval =>
    obtain ⟨n, rfl, hn⟩ := setIntOption_ok (by decide) (by decide) hr
    exact { h with interval := hn, terminated := hterm }
  | iterations =>
    obtain ⟨n, rfl, hn⟩ := setIntOption_ok (by decide) (by decide) hr
    exact { h with iterations := hn, terminated := hterm }
  | top =>
    obtain ⟨n, rfl, hn⟩ := setIntOption_ok (by decide) (by decide) hr
    exact { h with topN := hn, terminated := hterm }
  | procSort =>
    dsimp only at hr
    split_ifs at hr <;> cases hr <;> exact { h with terminated := hterm }
  | help | version | unknown => cases hr
  | csv | processes | config | validateConfig | noCpu | noMemory | noDisk | noNetwork | includeLo
  | diskDetails | netDetails =>
    cases hr
    exact { h with terminated := hterm }

theorem handleOptions_cons {cfg cfg' : ConfigMemory} {o : Found} {os : List Found}
    (h : handleOptions cfg (o :: os) = .ok cfg') :
    ∃ next, handleOption cfg o = .ok next ∧ handleOptions next os = .ok cfg' := by
  rw [handleOptions] at h
  cases ho : handleOption cfg o with
  | ok next =>
    rw [ho] at h
    exact ⟨next, rfl, h⟩
  | failed message =>
    rw [ho] at h
    cases h
  | exited =>
    rw [ho] at h
    cases h

theorem InRange.handleOptions {os : List Found} :
    ∀ {cfg cfg' : ConfigMemory}, InRange cfg → handleOptions cfg os = .ok cfg' → InRange cfg' := by
  induction os with
  | nil =>
    intro cfg cfg' h hr
    cases hr
    exact h
  | cons o os ih =>
    intro cfg cfg' h hr
    obtain ⟨next, ho, hos⟩ := handleOptions_cons hr
    exact ih (h.handleOption ho) hos

theorem requireMetric_ok {cfg cfg' : ConfigMemory} (h : requireMetric cfg = .ok cfg') :
    cfg' = cfg ∧ (cfg.showCpu || cfg.showMemory || cfg.showDisk || cfg.showNetwork ||
      cfg.showProcesses) = true := by
  unfold requireMetric at h
  split at h
  · cases h
  · next hne =>
    cases h
    refine ⟨rfl, ?_⟩
    revert hne
    cases cfg.showCpu <;> cases cfg.showMemory <;> cases cfg.showDisk <;>
      cases cfg.showNetwork <;> cases cfg.showProcesses <;> decide

/-- Behind the options only the path may still change. -/
theorem finishArgs_ok {cfg cfg' : ConfigMemory} {operands : List Bytes}
    (h : finishArgs cfg operands = .ok cfg') :
    (cfg' = cfg ∨ ∃ path, cfg' = { cfg with configPath := cfg.configPath.strncpy path 255 }) ∧
      (cfg'.showCpu || cfg'.showMemory || cfg'.showDisk || cfg'.showNetwork ||
        cfg'.showProcesses) = true := by
  match operands with
  | [] =>
    obtain ⟨rfl, hshown⟩ := requireMetric_ok h
    exact ⟨.inl rfl, hshown⟩
  | [operand] =>
    simp only [finishArgs] at h
    split at h
    · obtain ⟨rfl, hshown⟩ := requireMetric_ok h
      exact ⟨.inr ⟨operand, rfl⟩, hshown⟩
    · cases h
  | operand :: extra :: rest =>
    simp only [finishArgs] at h
    split at h <;> cases h

theorem parseArgs_ok {posixlyCorrect : Bool} {argv : List Bytes} {cfg cfg' : ConfigMemory}
    (h : parseArgs posixlyCorrect argv cfg = .ok cfg') :
    ∃ mid, handleOptions cfg (getoptLong posixlyCorrect none argv.tail).1 = .ok mid ∧
      finishArgs mid (getoptLong posixlyCorrect none argv.tail).2 = .ok cfg' := by
  unfold parseArgs at h
  dsimp only at h
  split at h
  · next mid hmid => exact ⟨mid, hmid, h⟩
  · next hstop =>
    exact absurd h (hstop cfg')

theorem InRange.parseArgs {cfg cfg' : ConfigMemory} (h : InRange cfg) {posixlyCorrect : Bool}
    {argv : List Bytes} (hr : parseArgs posixlyCorrect argv cfg = .ok cfg') : InRange cfg' := by
  obtain ⟨mid, hmid, hfinish⟩ := parseArgs_ok hr
  have hrange := h.handleOptions hmid
  rcases (finishArgs_ok hfinish).1 with rfl | ⟨path, rfl⟩
  · exact hrange
  · exact { hrange with
      terminated := hrange.terminated.frame (hrange.terminated.path.strncpy path)
        (by rintro ⟨⟩ <;> rfl) (by rintro ⟨⟩ <;> rfl) }

/-- **The configuration is always in range.** Whatever arguments are accepted and
whatever the file holds, and whether it is accepted or not. -/
theorem configuration_in_range {posixlyCorrect : Bool} {argv : List Bytes} {cfg : ConfigMemory}
    (hargs : parseArgs posixlyCorrect argv .initDefaultConfig = .ok cfg) (files : Files)
    (path : Bytes) : InRange (loadConfigFile files path cfg).2.2 :=
  (inRange_initDefaultConfig.parseArgs hargs).load files path

theorem configuration_in_range_example :
    InRange (loadConfigFile ⟨ascii "output:\n  batch_size: 7\n  retry_max_attempts: -1\n",
      fun _ => none⟩ (ascii "-")
      { ConfigMemory.initDefaultConfig with
        intervalSec := 5, showProcesses := true, configPath := Buffer.ofText 256 (ascii "-") }).2.2 :=
  @configuration_in_range false
    [ascii "syswatch", ascii "-pi5", ascii "--conf", ascii "-"] _ (by decide +kernel) _ _

end Syswatch.ConfigRange
