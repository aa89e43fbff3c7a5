import Syswatch.ConfigRange

/-! # Which metrics a run collects

`parse_args` refuses a command line that leaves no metric on. `main` then loads
the file over the result, and nothing looks at the metrics again. -/

namespace Syswatch.ConfigMetrics
open Lib.CText Lib.Machine ConfigText ConfigRange

/-- The options on the command line. -/
def optionsOf (posixlyCorrect : Bool) (argv : List Bytes) : List Opt :=
  (getoptLong posixlyCorrect none argv.tail).1.map Found.opt

/-- What the options leave on. -/
def leftOn (opts : List Opt) : Metric → Bool
  | .cpu => .noCpu ∉ opts
  | .memory => .noMemory ∉ opts
  | .disk => .noDisk ∉ opts
  | .network => .noNetwork ∉ opts
  | .processes => .processes ∈ opts

def flagOf (m : Metric) : Setting → Option Bool
  | .metric g flag => if g = m then some flag else none
  | _ => none

/-- What the file says about a metric, line by line. -/
def collected (m : Metric) (text : Bytes) : List Bool := (settingsOf text).filterMap (flagOf m)

/-- Some metric is on. -/
def anyShown (cfg : ConfigMemory) : Bool :=
  cfg.showCpu || cfg.showMemory || cfg.showDisk || cfg.showNetwork || cfg.showProcesses

theorem anyShown_iff (cfg : ConfigMemory) : anyShown cfg = true ↔ ∃ m : Metric, m.shown cfg = true := by
  simp only [anyShown, Bool.or_eq_true]
  constructor
  · rintro ((((h | h) | h) | h) | h)
    · exact ⟨.cpu, h⟩
    · exact ⟨.memory, h⟩
    · exact ⟨.disk, h⟩
    · exact ⟨.network, h⟩
    · exact ⟨.processes, h⟩
  · rintro ⟨m, h⟩
    cases m with
    | cpu => exact .inl (.inl (.inl (.inl h)))
    | memory => exact .inl (.inl (.inl (.inr h)))
    | disk => exact .inl (.inl (.inr h))
    | network => exact .inl (.inr h)
    | processes => exact .inr h

/-- **What the file leaves of a metric**: its last word, or what there was. -/
theorem shown_load (m : Metric) (cfg : ConfigMemory) (text : Bytes) :
    m.shown (applyTo cfg (settingsOf text)) = ((collected m text).getLast?).getD (m.shown cfg) := by
  have hstep (cfg : ConfigMemory) (s : Setting) :
      m.shown (s.apply cfg) = (flagOf m s).getD (m.shown cfg) := by
    cases s with
    | word f w => cases f <;> cases m <;> rfl
    | int f n => cases f <;> cases m <;> rfl
    | text f t => cases f <;> cases m <;> rfl
    | metric g flag => cases g <;> cases m <;> rfl
    | load flag => rfl
  exact @foldl_last_write _ _ _ _ (fun _ => True) (fun cfg => m.shown cfg) _ _
    (fun _ _ _ _ => trivial) (fun s _ cfg _ => hstep cfg s) _ trivial

/-- The option that sets a metric, and what it sets. -/
def optionOf : Metric → Opt × Bool
  | .cpu => (.noCpu, false)
  | .memory => (.noMemory, false)
  | .disk => (.noDisk, false)
  | .network => (.noNetwork, false)
  | .processes => (.processes, true)

theorem shown_handleOption {cfg cfg' : ConfigMemory} {o : Found}
    (h : handleOption cfg o = .ok cfg') (m : Metric) :
    m.shown cfg' = if o.opt = (optionOf m).1 then (optionOf m).2 else m.shown cfg := by
  obtain ⟨opt, optarg⟩ := o
  unfold handleOption at h
  cases opt with
  | interval | iterations | top =>
    obtain ⟨n, rfl, -⟩ := setIntOption_ok (by decide) (by decide) h
    cases m <;> rfl
  | procSort =>
    dsimp only at h
    split_ifs at h <;> cases h <;> cases m <;> rfl
  | help | version | unknown => cases h
  | csv | processes | config | validateConfig | noCpu | noMemory | noDisk | noNetwork | includeLo
  | diskDetails | netDetails =>
    cases h
    cases m <;> rfl

theorem shown_handleOptions (m : Metric) {os : List Found} :
    ∀ {cfg cfg' : ConfigMemory}, handleOptions cfg os = .ok cfg' → m.shown cfg' =
      if (optionOf m).1 ∈ os.map Found.opt then (optionOf m).2 else m.shown cfg := by
  induction os with
  | nil =>
    intro cfg cfg' h
    cases h
    rfl
  | cons o os ih =>
    intro cfg cfg' h
    obtain ⟨next, ho, hos⟩ := handleOptions_cons h
    simp only [ih hos, shown_handleOption ho m, List.map_cons, List.mem_cons]
    by_cases hmem : (optionOf m).1 ∈ os.map Found.opt
    · simp [hmem]
    · simp [hmem, eq_comm]

/-- What `parse_args` leaves on is what the options say. -/
theorem shown_parseArgs {posixlyCorrect : Bool} {argv : List Bytes} {cfg : ConfigMemory}
    (h : parseArgs posixlyCorrect argv .initDefaultConfig = .ok cfg) (m : Metric) :
    m.shown cfg = leftOn (optionsOf posixlyCorrect argv) m := by
  obtain ⟨mid, hmid, hfinish⟩ := parseArgs_ok h
  have hshown : m.shown cfg = m.shown mid := by
    rcases (finishArgs_ok hfinish).1 with rfl | ⟨path, rfl⟩
    · rfl
    · cases m <;> rfl
  have hdefault : m.shown .initDefaultConfig = !(optionOf m).2 := by cases m <;> rfl
  rw [hshown, shown_handleOptions m hmid, ← optionsOf, hdefault]
  by_cases hmem : (optionOf m).1 ∈ optionsOf posixlyCorrect argv
  · rw [if_pos hmem]
    cases m <;> exact (by simpa [leftOn, optionOf] using hmem)
  · rw [if_neg hmem]
    cases m <;> exact (by simpa [leftOn, optionOf] using hmem)

theorem mainSetup_runs {posixlyCorrect : Bool} {argv : List Bytes} {files : Files}
    {cfg : ConfigMemory} (h : mainSetup posixlyCorrect argv files = .runs cfg) :
    ∃ args text, parseArgs posixlyCorrect argv .initDefaultConfig = .ok args ∧
      files.read args.configPath.text = some text ∧ Accepted text ∧
      cfg = applyTo args (settingsOf text) := by
  unfold mainSetup at h
  cases hargs : parseArgs posixlyCorrect argv .initDefaultConfig with
  | failed message =>
    rw [hargs] at h
    cases h
  | exited =>
    rw [hargs] at h
    cases h
  | ok args =>
    rw [hargs] at h
    dsimp only at h
    split_ifs at h with hpath hload
    cases hread : files.read args.configPath.text with
    | none =>
      rw [loadConfigFile, hread] at hload
      exact absurd (not_not.mp hload) (by simp)
    | some text =>
      obtain ⟨hcfg, hzero, -⟩ := load_eq hread args
      rw [hcfg] at h
      cases h
      exact ⟨args, text, rfl, hread, hzero.mp (not_not.mp hload), rfl⟩

/-- **When a run collects anything.** Exactly when some metric is on by the last
word of the file about it, or, where the file has none, by the options. -/
theorem metric_enabled_iff {posixlyCorrect : Bool} {argv : List Bytes} {files : Files}
    {args cfg : ConfigMemory} {text : Bytes}
    (hargs : parseArgs posixlyCorrect argv .initDefaultConfig = .ok args)
    (hread : files.read args.configPath.text = some text)
    (hrun : mainSetup posixlyCorrect argv files = .runs cfg) :
    anyShown cfg = true ↔ ∃ m : Metric,
      ((collected m text).getLast?).getD (leftOn (optionsOf posixlyCorrect argv) m) = true := by
  obtain ⟨args', text', hargs', hread', -, rfl⟩ := mainSetup_runs hrun
  rw [hargs] at hargs'
  cases hargs'
  rw [hread] at hread'
  cases hread'
  rw [anyShown_iff]
  simp only [shown_load, shown_parseArgs hargs]

/-- The command line and the file of a run whose only metric the file switches on. -/
def processesFile : Files := ⟨ascii "collect:\n  cpu: false\n  processes: true\n", fun _ => none⟩

theorem metric_enabled_iff_example :
    anyShown { ConfigMemory.initDefaultConfig with
        showCpu := false, showMemory := false, showDisk := false, showNetwork := false
        showProcesses := true, configPath := Buffer.ofText 256 (ascii "-") } = true ↔
      ∃ m : Metric, ((collected m processesFile.stdin).getLast?).getD (leftOn (optionsOf false
        [ascii "syswatch", ascii "--no-mem", ascii "--no-disk", ascii "--no-network", ascii "--config",
          ascii "-"]) m) = true :=
  @metric_enabled_iff false _ processesFile
    { ConfigMemory.initDefaultConfig with
      showMemory := false, showDisk := false, showNetwork := false
      configPath := Buffer.ofText 256 (ascii "-") } _ _
    (by decide +kernel) (by decide +kernel) (by decide +kernel)

/-- A file that switches every metric off. -/
theorem runs_without_metrics :
    ¬∀ (posixlyCorrect : Bool) (argv : List Bytes) (files : Files) (cfg : ConfigMemory),
      mainSetup posixlyCorrect argv files = .runs cfg → anyShown cfg = true := by
  intro h
  have hshown := h false [ascii "syswatch", ascii "--config", ascii "-"]
    ⟨ascii "collect:\n  cpu: false\n  memory: false\n  disk: false\n  network: false\n",
      fun _ => none⟩
    { ConfigMemory.initDefaultConfig with
      showCpu := false, showMemory := false, showDisk := false, showNetwork := false
      configPath := Buffer.ofText 256 (ascii "-") } (by decide +kernel)
  revert hshown
  decide +kernel

end Syswatch.ConfigMetrics
