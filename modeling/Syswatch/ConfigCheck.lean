import Syswatch.ConfigRange

/-! # `--validate-config` against a real run

`main` asks `validate_config` with `--validate-config` and `output_init` without
it. `output_init` has defaults for a batch size and a batch interval that are
not set; `validate_config` takes the 0 that stands for "not set" as a bad value. -/

namespace Syswatch.ConfigCheck
open Lib.CText ConfigText ConfigRange

/-- Neither variable is set, the file opens, and what else is asked for succeeds. -/
def plainEnv : InitEnv := ⟨true, none, none, true, true⟩

theorem view_bytes {n : Nat} [NeZero n] {b : Buffer n} (h : b.Terminated) :
    (CString.ofBytes n b.text).bytes = b.text :=
  CString.ofBytes_bytes (zero_notMem_cstr b.bytes) h.text_length

/-- What `validate_config` refuses of a configuration that was loaded. -/
theorem validateConfig_zero_iff {cfg : ConfigMemory} (h : InRange cfg) :
    (validateConfig cfg).1 = 0 ↔
      ¬(cfg.outputType.text = ascii "file" ∧ cfg.outputPath.text = []) ∧
      ¬(cfg.outputType.text = ascii "http_post" ∧ (cfg.outputUrl.text = [] ∨
        cfg.outputBatchSize ≤ 0 ∨ cfg.outputBatchIntervalSeconds ≤ 0)) := by
  have htype : cfg.outputType.text ≠ [] := by
    intro h0
    have := h.outputType
    rw [h0] at this
    revert this
    decide
  have hinterval : ¬cfg.intervalSec ≤ 0 := by
    rw [Int32.le_iff_toInt_le]
    have := h.interval.1
    simp
    omega
  have hlevel : ¬(cfg.logLevel.text ≠ [] ∧ cfg.logLevel.text ≠ ascii "debug" ∧
      cfg.logLevel.text ≠ ascii "info" ∧ cfg.logLevel.text ≠ ascii "warn" ∧
      cfg.logLevel.text ≠ ascii "error") := by
    rintro ⟨-, hdebug, hinfo, hwarn, herror⟩
    have := h.logLevel
    simp only [List.mem_cons, List.mem_nil_iff, or_false] at this
    rcases this with hw | hw | hw | hw
    · exact hdebug hw
    · exact hinfo hw
    · exact hwarn hw
    · exact herror hw
  have hdestination : ¬(cfg.logDestination.text ≠ [] ∧ cfg.logDestination.text ≠ ascii "stderr" ∧
      cfg.logDestination.text ≠ ascii "file") := by
    rintro ⟨-, hstderr, hfile⟩
    have := h.logDestination
    simp only [List.mem_cons, List.mem_nil_iff, or_false] at this
    rcases this with hw | hw
    · exact hstderr hw
    · exact hfile hw
  unfold validateConfig
  dsimp only
  rw [if_neg (not_not_intro h.version), if_neg hinterval, if_neg htype]
  split_ifs with hfile hurl hsize hbatch
  · exact iff_of_false (by decide) fun hok => hok.1 hfile
  · exact iff_of_false (by decide) fun hok => hok.2 ⟨hurl.1, .inl hurl.2⟩
  · exact iff_of_false (by decide) fun hok => hok.2 ⟨hsize.1, .inr (.inl hsize.2)⟩
  · exact iff_of_false (by decide) fun hok => hok.2 ⟨hbatch.1, .inr (.inr hbatch.2)⟩
  · refine iff_of_true rfl ⟨hfile, ?_⟩
    rintro ⟨hhttp, hu | hs | hb⟩
    · exact hurl ⟨hhttp, hu⟩
    · exact hsize ⟨hhttp, hs⟩
    · exact hbatch ⟨hhttp, hb⟩

/-- What `output_init` refuses of it. -/
theorem outputInit_zero_iff (ι : Type) {cfg : ConfigMemory} (h : InRange cfg) (s : OutputState ι) :
    (outputInit ι plainEnv (some cfg.view) s).1 = 0 ↔
      ¬(cfg.outputType.text = ascii "file" ∧ cfg.outputPath.text = []) ∧
      ¬(cfg.outputType.text = ascii "http_post" ∧ cfg.outputUrl.text = []) := by
  have htype : cfg.view.outputType.bytes = cfg.outputType.text :=
    view_bytes (h.terminated.word .outputType)
  have hpath : cfg.view.outputPath.bytes = cfg.outputPath.text :=
    view_bytes (h.terminated.text .outputPath)
  have hurl : cfg.view.outputUrl.bytes = cfg.outputUrl.text :=
    view_bytes (h.terminated.text .outputUrl)
  have hfile : ascii "file" ≠ ascii "http_post" := by decide
  have hall := h.outputType
  simp only [List.mem_cons, List.mem_nil_iff, or_false] at hall
  unfold outputInit
  dsimp only
  rw [htype, hpath, hurl]
  rcases hall with hall | hall | hall
  · rw [hall, if_pos (.inr rfl)]
    exact iff_of_true rfl ⟨fun hc => absurd hc.1 (by decide), fun hc => absurd hc.1 (by decide)⟩
  · rw [hall, if_neg (by decide), if_pos rfl]
    by_cases hp : cfg.outputPath.text = []
    · rw [if_pos hp]
      exact iff_of_false (by simp) fun hok => hok.1 ⟨rfl, hp⟩
    · rw [if_neg hp, if_neg (by decide)]
      exact iff_of_true rfl ⟨fun hc => hp hc.2, fun hc => hfile hc.1⟩
  · rw [hall, if_neg (by decide), if_neg hfile.symm, if_pos rfl]
    by_cases hu : cfg.outputUrl.text = []
    · rw [if_pos ⟨hu, rfl⟩]
      exact iff_of_false (by simp) fun hok => hok.2 ⟨rfl, hu⟩
    · rw [if_neg (fun hc => hu hc.1), if_neg (by decide)]
      -- the capacity of the fresh state is 0, so that the array is allocated
      exact iff_of_true rfl ⟨fun hc => hfile hc.1.symm, fun hc => hu hc.2⟩

/-- **When validation agrees with a real run.** Exactly unless the type is
`http_post`, the URL is given, and the batch size or interval is not. -/
theorem validate_agrees_iff (ι : Type) {files : Files} {path : Bytes} {cfg : ConfigMemory}
    (hload : loadConfigFile files path .initDefaultConfig = (0, none, cfg)) (s : OutputState ι) :
    ((validateConfig cfg).1 = 0 ↔ (outputInit ι plainEnv (some cfg.view) s).1 = 0) ↔
      ¬(cfg.outputType.text = ascii "http_post" ∧ cfg.outputUrl.text ≠ [] ∧
        (cfg.outputBatchSize = 0 ∨ cfg.outputBatchIntervalSeconds = 0)) := by
  have hrange : InRange cfg := by
    have := inRange_initDefaultConfig.load files path
    rwa [hload] at this
  have hunset {n : Int32} {hi : Int} (hn : n = 0 ∨ 1 ≤ n.toInt ∧ n.toInt ≤ hi) : n ≤ 0 ↔ n = 0 := by
    constructor
    · intro hle
      rw [Int32.le_iff_toInt_le] at hle
      rcases hn with hn | hn
      · exact hn
      · simp at hle
        omega
    · rintro rfl
      decide
  rw [validateConfig_zero_iff hrange, outputInit_zero_iff ι hrange s, hunset hrange.batchSize,
    hunset hrange.batchInterval]
  by_cases hhttp : cfg.outputType.text = ascii "http_post"
  · have hfile : ascii "http_post" ≠ ascii "file" := by decide
    by_cases hu : cfg.outputUrl.text = []
    · simp [hhttp, hu]
    · simp [hhttp, hu, hfile]
  · simp [hhttp]

theorem validate_agrees_iff_example :
    ((validateConfig (loadConfigFile ⟨ascii "output:\n  type: file\n", fun _ => none⟩ (ascii "-")
        .initDefaultConfig).2.2).1 = 0 ↔
      (outputInit Unit plainEnv (some (loadConfigFile ⟨ascii "output:\n  type: file\n",
        fun _ => none⟩ (ascii "-") .initDefaultConfig).2.2.view) (.zero Unit)).1 = 0) :=
  (validate_agrees_iff Unit (Prod.ext (by decide +kernel) (Prod.ext (by decide +kernel) rfl)) _).mpr
    (by decide +kernel)

/-- A real run would post batches of 50; the validation fails. -/
theorem validate_disagrees :
    ¬∀ (files : Files) (path : Bytes) (cfg : ConfigMemory) (s : OutputState Unit),
      loadConfigFile files path .initDefaultConfig = (0, none, cfg) →
        ((validateConfig cfg).1 = 0 ↔ (outputInit Unit plainEnv (some cfg.view) s).1 = 0) := by
  intro h
  have hload : (loadConfigFile ⟨ascii "output:\n  type: http_post\n  url: http://h\n",
      fun _ => none⟩ (ascii "-") .initDefaultConfig) = (0, none,
      { ConfigMemory.initDefaultConfig with
        outputType := Buffer.ofText 16 (ascii "http_post")
        outputUrl := Buffer.ofText 256 (ascii "http://h") }) := by
    decide +kernel
  have hrun := (h _ _ _ (.zero Unit) hload).mpr (by decide +kernel)
  revert hrun
  decide +kernel

end Syswatch.ConfigCheck
