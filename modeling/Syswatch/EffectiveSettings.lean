import Syswatch.ConfigMetrics
import Syswatch.ConfigStrings

/-! # Which settings a run goes by

`main` has the options written over the defaults, and the file over both. For each
key the last value counts that one of them gives, the file's before an option's. A
file that is refused names the line that is at fault. -/

namespace Syswatch.EffectiveSettings
open Lib.CText Lib.Machine ConfigText ConfigRange ConfigMetrics ConfigStrings

/-! ## The value of a key -/

inductive Value where
  | text (s : Bytes)
  | number (n : Int32)
  | flag (on : Bool)
  /-- `collect.load` is read and not kept. -/
  | nothing
  deriving DecidableEq

/-- What the struct holds. -/
def valueOf (cfg : ConfigMemory) : Field → Value
  | .word f => .text (f.get cfg).text
  | .int f => .number (f.get cfg)
  | .text f => .text (f.get cfg).text
  | .metric m => .flag (m.shown cfg)
  | .load => .nothing

/-- What a setting leaves in the struct. -/
def settingValue : Setting → Value
  | .word _ w => .text w
  | .int _ n => .number n
  | .text f s => .text (stored f s)
  | .metric _ on => .flag on
  | .load _ => .nothing

/-- The value that a setting gives to a key. -/
def assigns (f : Field) (s : Setting) : Option Value :=
  if s.field = f then some (settingValue s) else none

/-- What an option writes into a key. -/
def optionSetting (o : Found) : Option Setting :=
  match o.opt with
  | .interval => (parseBoundedInt o.optarg 1 86400).map (.int .pollIntervalSeconds)
  | .processes => some (.metric .processes true)
  | .noCpu => some (.metric .cpu false)
  | .noMemory => some (.metric .memory false)
  | .noDisk => some (.metric .disk false)
  | .noNetwork => some (.metric .network false)
  | _ => none

def optionSettings (posixlyCorrect : Bool) (argv : List Bytes) : List Setting :=
  (getoptLong posixlyCorrect none argv.tail).1.filterMap optionSetting

/-- The values that some settings give to a key. -/
def given (f : Field) (ss : List Setting) : List Value := ss.filterMap (assigns f)

/-! ## The file -/

theorem word_fits {f : WordField} {w : Bytes} (hw : w ∈ f.allowed) : (cstr w).take 15 = w := by
  have hall : ∀ f : WordField, f.allowed.all fun w => (cstr w).take 15 = w := by
    intro f
    cases f <;> decide +kernel
  simpa using List.all_eq_true.mp (hall f) w hw

/-- A setting changes its own key and no other. -/
theorem valueOf_apply {cfg : ConfigMemory} (h : Terminated cfg) {s : Setting} (hs : s.Valid)
    (h0 : ∀ f t, s = .text f t → (0 : UInt8) ∉ t) (f : Field) :
    valueOf (s.apply cfg) f = (assigns f s).getD (valueOf cfg f) := by
  cases s with
  | word g w =>
    have hset : valueOf (Setting.apply cfg (.word g w)) (.word g) = .text w := by
      rw [valueOf, Setting.apply, WordField.get_set, if_pos rfl, Buffer.text_strncpy (h.word g),
        word_fits hs]
    cases f with
    | word f =>
      by_cases hg : g = f
      · subst hg
        simp [hset, assigns, Setting.field, settingValue]
      · simp [valueOf, Setting.apply, assigns, Setting.field, hg, Ne.symm hg]
    | int f => cases g <;> cases f <;> rfl
    | text f => cases g <;> cases f <;> rfl
    | metric m => cases g <;> cases m <;> rfl
    | load => rfl
  | int g n =>
    cases f with
    | word f => cases g <;> cases f <;> rfl
    | int f => cases g <;> cases f <;> rfl
    | text f => cases g <;> cases f <;> rfl
    | metric m => cases g <;> cases m <;> rfl
    | load => rfl
  | text g t =>
    cases f with
    | word f => cases g <;> cases f <;> rfl
    | int f => cases g <;> cases f <;> rfl
    | text f =>
      rw [valueOf, text_apply h h0 f, valueOf, assigns, textOf, Setting.field]
      by_cases hg : g = f
      · subst hg
        simp [settingValue]
      · simp [hg]
    | metric m => cases g <;> cases m <;> rfl
    | load => rfl
  | metric g on =>
    cases f with
    | word f => cases g <;> cases f <;> rfl
    | int f => cases g <;> cases f <;> rfl
    | text f => cases g <;> cases f <;> rfl
    | metric m => cases g <;> cases m <;> rfl
    | load => rfl
  | load on => cases f <;> rfl

/-- **What a file leaves of a key**: the last value it gives, or what there was. -/
theorem valueOf_load {cfg : ConfigMemory} (h : Terminated cfg) (text : Bytes) (f : Field) :
    valueOf (applyTo cfg (settingsOf text)) f =
      ((given f (settingsOf text)).getLast?).getD (valueOf cfg f) :=
  @foldl_last_write _ _ _ Setting.apply Terminated (fun cfg => valueOf cfg f) (assigns f)
    (settingsOf text) (fun s _ _ ht => ht.apply s)
    (fun _ hs _ ht => valueOf_apply ht (readLines_valid _ _ _ hs) (fun _ _ he => text_noNul (he ▸ hs)) f)
    cfg h

/-! ## The options -/

theorem valueOf_handleOption {cfg cfg' : ConfigMemory} {o : Found} (h : handleOption cfg o = .ok cfg')
    (f : Field) :
    valueOf cfg' f = ((optionSetting o).bind (assigns f)).getD (valueOf cfg f) := by
  obtain ⟨opt, optarg⟩ := o
  unfold handleOption at h
  cases opt with
  | interval =>
    unfold setIntOption at h
    cases hn : parseBoundedInt optarg 1 86400 with
    | none => simp [hn] at h
    | some n =>
      simp only [hn] at h
      cases h
      rw [optionSetting, hn]
      cases f <;> (try rename_i f; cases f) <;> rfl
  | iterations | top =>
    obtain ⟨n, rfl, -⟩ := setIntOption_ok (by decide) (by decide) h
    cases f <;> (try rename_i f; cases f) <;> rfl
  | procSort =>
    dsimp only at h
    split_ifs at h <;> cases h <;> cases f <;> (try rename_i f; cases f) <;> rfl
  | help | version | unknown => cases h
  | csv | processes | config | validateConfig | noCpu | noMemory | noDisk | noNetwork | includeLo
  | diskDetails | netDetails =>
    cases h
    cases f <;> (try rename_i f; cases f) <;> rfl

theorem getD_getLast?_append {α : Type} (xs ys : List α) (d : α) :
    (xs ++ ys).getLast?.getD d = ys.getLast?.getD (xs.getLast?.getD d) := by
  rw [List.getLast?_append]
  cases ys.getLast? <;> rfl

theorem valueOf_handleOptions (f : Field) {os : List Found} :
    ∀ {cfg cfg' : ConfigMemory}, handleOptions cfg os = .ok cfg' →
      valueOf cfg' f = ((given f (os.filterMap optionSetting)).getLast?).getD (valueOf cfg f) := by
  induction os with
  | nil =>
    intro cfg cfg' h
    cases h
    rfl
  | cons o os ih =>
    intro cfg cfg' h
    obtain ⟨next, ho, hos⟩ := handleOptions_cons h
    have hfirst : given f ((o :: os).filterMap optionSetting) =
        ((optionSetting o).bind (assigns f)).toList ++ given f (os.filterMap optionSetting) := by
      rw [given, given, List.filterMap_filterMap, List.filterMap_cons, List.filterMap_filterMap]
      cases (optionSetting o).bind (assigns f) <;> rfl
    rw [hfirst, getD_getLast?_append, ih hos, valueOf_handleOption ho f]
    cases (optionSetting o).bind (assigns f) <;> rfl

theorem valueOf_parseArgs {posixlyCorrect : Bool} {argv : List Bytes} {cfg : ConfigMemory}
    (h : parseArgs posixlyCorrect argv .initDefaultConfig = .ok cfg) (f : Field) :
    valueOf cfg f = ((given f (optionSettings posixlyCorrect argv)).getLast?).getD
      (valueOf .initDefaultConfig f) := by
  obtain ⟨mid, hmid, hfinish⟩ := parseArgs_ok h
  have hpath : valueOf cfg f = valueOf mid f := by
    rcases (finishArgs_ok hfinish).1 with rfl | ⟨path, rfl⟩
    · rfl
    · cases f <;> (try rename_i f; cases f) <;> rfl
  rw [hpath, valueOf_handleOptions f hmid, optionSettings]

/-- **The settings of a run.** Each key has the last value that the options and then
the file give it, or its default. -/
theorem effective_settings {posixlyCorrect : Bool} {argv : List Bytes} {files : Files} {cfg : ConfigMemory}
    (h : mainSetup posixlyCorrect argv files = .runs cfg) :
    ∃ args text, parseArgs posixlyCorrect argv .initDefaultConfig = .ok args ∧
      files.read args.configPath.text = some text ∧
      ∀ f : Field, valueOf cfg f =
        ((given f (optionSettings posixlyCorrect argv ++ settingsOf text)).getLast?).getD
          (valueOf .initDefaultConfig f) := by
  obtain ⟨args, text, hargs, hread, -, rfl⟩ := mainSetup_runs h
  refine ⟨args, text, hargs, hread, fun f => ?_⟩
  have hterm : Terminated args := (inRange_initDefaultConfig.parseArgs hargs).terminated
  rw [valueOf_load hterm, valueOf_parseArgs hargs]
  simp only [given, List.filterMap_append, getD_getLast?_append]

/-- An option switches a metric off, and the file switches it on again. -/
def cpuArgv : List Bytes := [ascii "syswatch", ascii "--no-cpu", ascii "-i5", ascii "--config", ascii "-"]

def cpuFile : Files := ⟨ascii "collect:\n  cpu: true\n", fun _ => none⟩

theorem effective_settings_example : ∃ cfg, mainSetup false cpuArgv cpuFile = .runs cfg ∧
    ∃ args text, parseArgs false cpuArgv .initDefaultConfig = .ok args ∧
      cpuFile.read args.configPath.text = some text ∧
      ∀ f : Field, valueOf cfg f = ((given f (optionSettings false cpuArgv ++ settingsOf text)).getLast?).getD
        (valueOf .initDefaultConfig f) := by
  have hruns : (match mainSetup false cpuArgv cpuFile with | .runs _ => true | .exits _ => false) = true := by
    decide +kernel
  cases h : mainSetup false cpuArgv cpuFile with
  | runs cfg => exact ⟨cfg, rfl, effective_settings h⟩
  | exits code => simp [h] at hruns

/-! ## A file that is refused -/

/-- Every error that the step can end with is one of this line. -/
def Names {α : Type} (lineNo : Nat) (r : Except Bytes α) : Prop :=
  ∀ err, r = .error err → ∃ what, err = lineError lineNo what

theorem names_ok {α : Type} {lineNo : Nat} (a : α) : Names lineNo (.ok a) := nofun

theorem names_error {α : Type} (lineNo : Nat) (what : Bytes) :
    Names lineNo (.error (lineError lineNo what) : Except Bytes α) := by
  rintro err ⟨⟩
  exact ⟨what, rfl⟩

theorem Names.map {α β : Type} {lineNo : Nat} {r : Except Bytes α} (h : Names lineNo r) (f : α → β) :
    Names lineNo (r.map f) := by
  intro err he
  cases r with
  | error e =>
    cases he
    exact h _ rfl
  | ok a => cases he

theorem names_setInt (what value : Bytes) (lo hi : Int) (lineNo : Nat) (set : Int32 → ConfigMemory) :
    Names lineNo (setInt what value lo hi lineNo set) := by
  unfold setInt
  split
  · exact names_error lineNo _
  · exact names_ok _

theorem names_setScalarTopLevel (cfg : ConfigMemory) (key value : Bytes) (lineNo : Nat) :
    Names lineNo (setScalarTopLevel cfg key value lineNo) := by
  unfold setScalarTopLevel
  split_ifs <;> first | exact names_ok _ | exact names_error lineNo _ | exact names_setInt _ _ _ _ _ _

theorem names_setOutputKey (cfg : ConfigMemory) (key value : Bytes) (lineNo : Nat) :
    Names lineNo (setOutputKey cfg key value lineNo) := by
  unfold setOutputKey
  split_ifs <;> first | exact names_ok _ | exact names_error lineNo _ | exact names_setInt _ _ _ _ _ _

theorem names_setCollectKey (cfg : ConfigMemory) (key value : Bytes) (lineNo : Nat) :
    Names lineNo (setCollectKey cfg key value lineNo) := by
  unfold setCollectKey
  split
  · exact names_error lineNo _
  · split_ifs <;> first | exact names_ok _ | exact names_error lineNo _

theorem names_setLogKey (cfg : ConfigMemory) (key value : Bytes) (lineNo : Nat) :
    Names lineNo (setLogKey cfg key value lineNo) := by
  unfold setLogKey
  split_ifs <;> first | exact names_ok _ | exact names_error lineNo _

theorem names_parseLine (lineNo : Nat) (line : Bytes) : Names lineNo (parseLine lineNo line) := by
  unfold parseLine
  dsimp only
  split_ifs <;> first | exact names_ok _ | exact names_error lineNo _

theorem names_loadEntry (lineNo : Nat) (sec : ConfigSection) (cfg : ConfigMemory) (l : ConfigLine) :
    Names lineNo (loadEntry lineNo sec cfg l) := by
  unfold loadEntry
  split_ifs
  · exact names_ok _
  · exact names_ok _
  · exact names_ok _
  · exact (names_setScalarTopLevel _ _ _ _).map _
  · cases sec with
    | none => exact names_error lineNo _
    | output => exact (names_setOutputKey _ _ _ _).map _
    | collect => exact (names_setCollectKey _ _ _ _).map _
    | log => exact (names_setLogKey _ _ _ _).map _

theorem names_loadLine (lineNo : Nat) (sec : ConfigSection) (cfg : ConfigMemory) (line : Bytes) :
    Names lineNo (loadLine lineNo sec cfg line) := by
  unfold loadLine
  split
  · next err herr =>
    rintro err' ⟨⟩
    exact names_parseLine lineNo line err herr
  · exact names_ok _
  · exact names_loadEntry _ _ _ _

/-- The section behind some lines, if all of them are read. -/
def sectionAfter (sec : ConfigSection) (lines : List Bytes) : Option ConfigSection :=
  run (fun sec line => (readLine sec line).map Prod.fst) sec lines

/-- Where the loader stops. -/
theorem loadLines_refused {lineNo : Nat} {sec : ConfigSection} {cfg cfg' : ConfigMemory} {err : Bytes}
    {lines : List Bytes} (h : loadLines lineNo sec cfg lines = (-1, some err, cfg')) :
    ∃ before line after sec', lines = before ++ line :: after ∧ sectionAfter sec before = some sec' ∧
      readLine sec' line = none ∧ cfg' = applyTo cfg (readLines sec before).1 ∧
      ∃ what, err = lineError (lineNo + before.length + 1) what := by
  induction lines generalizing lineNo sec cfg with
  | nil => cases h
  | cons line rest ih =>
    have hline := loadLine_spec (lineNo + 1) sec cfg line
    rw [loadLines] at h
    cases hload : loadLine (lineNo + 1) sec cfg line with
    | error e =>
      rw [hload] at h hline
      cases h
      exact ⟨[], line, rest, sec, rfl, rfl, Option.map_eq_none_iff.mp hline.symm, rfl,
        names_loadLine _ _ _ _ _ hload⟩
    | ok next =>
      rw [hload] at h hline
      obtain ⟨r, hr, rfl⟩ := Option.map_eq_some_iff.mp hline.symm
      obtain ⟨before, bad, after, sec', hlines, hsec, hbad, hcfg, what, herr⟩ := ih h
      refine ⟨line :: before, bad, after, sec', by rw [hlines]; rfl, ?_, hbad, ?_, what, ?_⟩
      · rw [sectionAfter, run_cons, hr]
        exact hsec
      · rw [hcfg, readLines_read hr, applyTo, applyTo, applyTo, List.foldl_append]
      · rw [herr, List.length_cons]
        congr 1
        omega

/-- **A refused file names its line.** The error bears the number of the first line
that cannot be read, and the struct has what the lines before it set. -/
theorem refusal_names_line {files : Files} {path text err : Bytes} {cfg cfg' : ConfigMemory}
    (hread : files.read path = some text) (hlines : ∀ l ∈ textLines [] text, lineLength l ≤ 1022)
    (h : loadConfigFile files path cfg = (-1, some err, cfg')) :
    ∃ before line after sec, textLines [] text = before ++ line :: after ∧
      sectionAfter .none before = some sec ∧ readLine sec line = none ∧
      cfg' = applyTo cfg (readLines .none before).1 ∧
      ∃ what, err = lineError (before.length + 1) what := by
  have hfgets : fgetsAll 1024 [] text = textLines [] text :=
    fgetsAll_textLines (by simp) fun l hl => by have := hlines l hl; omega
  rw [loadConfigFile, hread] at h
  dsimp only at h
  rw [hfgets] at h
  obtain ⟨before, line, after, sec, hsplit, hsec, hbad, hcfg, what, herr⟩ := loadLines_refused h
  exact ⟨before, line, after, sec, hsplit, hsec, hbad, hcfg, what, by rwa [Nat.zero_add] at herr⟩

def badFile : Files := ⟨ascii "config_version: 1.0\n\noutput:\n  batch_size: 0\n", fun _ => none⟩

theorem refusal_names_line_example : ∃ err cfg,
    loadConfigFile badFile (ascii "-") .initDefaultConfig = (-1, some err, cfg) ∧
      ∃ before line after sec, textLines [] badFile.stdin = before ++ line :: after ∧
        sectionAfter .none before = some sec ∧ readLine sec line = none ∧
        cfg = applyTo .initDefaultConfig (readLines .none before).1 ∧
        ∃ what, err = lineError (before.length + 1) what := by
  have hcode : (loadConfigFile badFile (ascii "-") .initDefaultConfig).1 = -1 ∧
      (loadConfigFile badFile (ascii "-") .initDefaultConfig).2.1.isSome := by decide +kernel
  obtain ⟨err, herr⟩ := Option.isSome_iff_exists.mp hcode.2
  refine ⟨err, _, Prod.ext hcode.1 (Prod.ext herr rfl), ?_⟩
  exact refusal_names_line rfl (by decide +kernel) (Prod.ext hcode.1 (Prod.ext herr rfl))

end Syswatch.EffectiveSettings
