import Syswatch.ConfigLines

/-! # Comments in the configuration file

`fgets` cuts a line of 1024 or more bytes, and the loader looks for the `#` of a
comment in every piece by itself. A comment has no effect exactly when each of
its pieces is blank or starts with `#`. -/

namespace Syswatch.ConfigComments
open Lib.CText ConfigText ConfigLines

/-- Blanks, then `#` and the comment. -/
structure FullLineComment (line : Bytes) : Prop where
  start : ∃ blanks body, line = blanks ++ 35 :: body ∧ ∀ b ∈ blanks, isBlank b = true
  noNewline : (10 : UInt8) ∉ line
  noNul : (0 : UInt8) ∉ line

/-- The test at the head of the loop. -/
def Skipped (piece : Bytes) : Prop := (ltrim piece).head? = none ∨ (ltrim piece).head? = some 35

instance (piece : Bytes) : Decidable (Skipped piece) := inferInstanceAs (Decidable (_ ∨ _))

/-! ## What is skipped -/

/-- A first byte that starts no comment is kept. -/
theorem cutComment_start {blanks : Bytes} (hblanks : ∀ b ∈ blanks, isBlank b = true) {c : UInt8}
    (hc : c ≠ 35) (atWord : Bool) (rest : Bytes) :
    ∃ rest', cutComment false atWord (blanks ++ c :: rest) = blanks ++ c :: rest' := by
  induction blanks generalizing atWord with
  | nil =>
    rw [List.nil_append, cutComment]
    split_ifs with h34 h35
    · exact ⟨_, rfl⟩
    · simp [hc] at h35
    · exact ⟨_, rfl⟩
  | cons b blanks ih =>
    obtain ⟨rest', h⟩ := ih (fun b hb => hblanks b (by simp [hb])) (isSpace b)
    have hb : b ≠ 34 ∧ b ≠ 35 := by
      have := hblanks b (by simp)
      constructor <;> rintro rfl <;> cases this
    refine ⟨rest', ?_⟩
    rw [List.cons_append, cutComment, if_neg hb.1, if_neg (by simp [hb.2]), h]
    rfl

theorem rtrim_start (blanks : Bytes) {c : UInt8} (hc : isBlank c = false) (rest : Bytes) :
    ∃ rest', rtrim (blanks ++ c :: rest) = blanks ++ c :: rest' := by
  induction rest using List.reverseRecOn with
  | nil => exact ⟨[], List.rdropWhile_concat_neg _ _ _ (by simp [hc])⟩
  | append_singleton rest b ih =>
    rw [← List.cons_append, ← List.append_assoc, rtrim]
    by_cases hb : isBlank b = true
    · rw [List.rdropWhile_concat_pos _ _ _ hb]
      exact ih
    · rw [List.rdropWhile_concat_neg _ _ _ hb]
      exact ⟨rest ++ [b], by simp⟩

theorem ltrim_start {blanks : Bytes} (hblanks : ∀ b ∈ blanks, isBlank b = true) {c : UInt8}
    (hc : isBlank c = false) (rest : Bytes) : ltrim (blanks ++ c :: rest) = c :: rest := by
  rw [ltrim, List.dropWhile_append_of_pos hblanks, List.dropWhile_cons_of_neg (by simp [hc])]

/-- What starts with another byte has text behind the inline comment is cut off. -/
theorem cursor_start {blanks : Bytes} (hblanks : ∀ b ∈ blanks, isBlank b = true) {c : UInt8}
    (hc : isBlank c = false) (h35 : c ≠ 35) (rest : Bytes) :
    rtrim (ltrim (stripInlineComment (blanks ++ c :: rest))) ≠ [] := by
  obtain ⟨rest₁, h₁⟩ := cutComment_start hblanks h35 true rest
  obtain ⟨rest₂, h₂⟩ := rtrim_start blanks hc rest₁
  obtain ⟨rest₃, h₃⟩ := rtrim_start [] hc rest₂
  rw [stripInlineComment, h₁, h₂, ltrim_start hblanks hc, ← List.nil_append (c :: rest₂), h₃]
  simp

theorem indent_start (blanks : Bytes) {c : UInt8} (hc : isBlank c = false) (rest : Bytes) :
    ((blanks ++ c :: rest).takeWhile (· == 32)).length ≤ blanks.length := by
  have h32 : c ≠ 32 := by
    rintro rfl
    cases hc
  rw [List.takeWhile_append]
  split
  · rw [List.takeWhile_cons_of_neg (by simpa using h32), List.append_nil]
  · exact (List.takeWhile_sublist _).length_le

theorem parseLine_start {blanks : Bytes} (hblanks : ∀ b ∈ blanks, isBlank b = true) {c : UInt8}
    (hc : isBlank c = false) (h35 : c ≠ 35) {rest : Bytes}
    (h0 : (0 : UInt8) ∉ blanks ++ c :: rest) (lineNo : Nat) :
    parseLine lineNo (blanks ++ c :: rest) ≠ .ok none := by
  have h10 : c ≠ 10 := by
    rintro rfl
    cases hc
  have hindent := indent_start blanks hc rest
  unfold parseLine
  dsimp only
  rw [cstr_of_noNul h0, ltrim_start hblanks hc, List.drop_append_of_le_length hindent,
    if_neg (by simp [h10, h35]),
    if_neg (cursor_start (fun b hb => hblanks b (List.mem_of_mem_drop hb)) hc h35 rest)]
  split_ifs <;> simp

/-- **The loader passes over a piece exactly when it is blank or starts with `#`.** -/
theorem parseLine_none_iff (lineNo : Nat) {piece : Bytes} (h0 : (0 : UInt8) ∉ piece) :
    parseLine lineNo piece = .ok none ↔ Skipped piece := by
  constructor
  · intro h
    by_contra hskip
    obtain ⟨hnone, h35⟩ := not_or.mp hskip
    obtain ⟨c, hc⟩ := Option.ne_none_iff_exists'.mp hnone
    obtain ⟨rest, hrest⟩ := List.head?_eq_some_iff.mp hc
    have hblank : isBlank c = false := by
      have hfirst := List.head?_dropWhile_not isBlank piece
      rw [← ltrim, hc] at hfirst
      simpa using hfirst
    have hpiece : piece = piece.takeWhile isBlank ++ c :: rest := by
      rw [← hrest, ltrim, List.takeWhile_append_dropWhile]
    rw [hpiece] at h h0
    refine parseLine_start (fun b hb => List.mem_takeWhile_imp hb) hblank ?_ h0 lineNo h
    rintro rfl
    exact h35 hc
  · intro h
    unfold parseLine
    dsimp only
    rw [cstr_of_noNul h0, if_pos (h.imp_right .inr)]

/-! ## What shows in the struct -/

/-- An array that the copy does not leave behind. -/
theorem strncpy_shows {n count : Nat} (hn : 0 < n) (hcount : 0 < count) (src : Bytes) :
    ∃ b : Buffer n, ∀ dst : Buffer n, dst.strncpy src count ≠ b := by
  have hhead (dst : Buffer n) : (dst.strncpy src count).bytes.head? = some ((cstr src).headD 0) := by
    obtain ⟨n, rfl⟩ := Nat.exists_eq_succ_of_ne_zero hn.ne'
    obtain ⟨count, rfl⟩ := Nat.exists_eq_succ_of_ne_zero hcount.ne'
    cases hsrc : cstr src with
    | nil => simp [Buffer.strncpy, hsrc, List.replicate_succ]
    | cons b rest => simp [Buffer.strncpy, hsrc]
  refine ⟨⟨List.replicate n ((cstr src).headD 0 + 1), List.length_replicate ..⟩, fun dst h => ?_⟩
  have hother := hhead dst
  rw [h, List.head?_replicate, if_neg hn.ne'] at hother
  simp at hother

/-- Every setting but `load` shows. -/
theorem apply_shows {s : Setting} (hs : s.field ≠ .load) :
    ∃ cfg, ∀ cfg' : ConfigMemory, s.apply cfg' ≠ cfg := by
  cases s with
  | word f w =>
    obtain ⟨b, hb⟩ := strncpy_shows (by decide : 0 < 16) (by decide : 0 < 15) w
    refine ⟨f.set .zero b, fun cfg' h => ?_⟩
    have hget := congrArg (fun cfg => f.get cfg) h
    simp only [Setting.apply, WordField.get_set, if_true] at hget
    exact hb _ hget
  | int f n =>
    have hget (cfg : ConfigMemory) (n : Int32) : f.get (f.set cfg n) = n := by
      cases f <;> rfl
    refine ⟨f.set .zero (n + 1), fun cfg' h => ?_⟩
    have hn := congrArg (fun cfg => f.get cfg) h
    simp [Setting.apply, hget] at hn
  | text f t =>
    have hsize : 1 < f.size := by cases f <;> decide
    obtain ⟨b, hb⟩ := strncpy_shows (by omega : 0 < f.size) (by omega : 0 < f.size - 1) t
    refine ⟨f.set .zero b, fun cfg' h => ?_⟩
    have hget := congrArg (fun cfg => f.get cfg) h
    simp only [Setting.apply, TextField.get_set] at hget
    exact hb _ hget
  | metric m flag =>
    have hshown (cfg : ConfigMemory) (flag : Bool) : m.shown (m.set cfg flag) = flag := by
      cases m <;> rfl
    refine ⟨m.set .zero !flag, fun cfg' h => ?_⟩
    have hflag := congrArg (fun cfg => m.shown cfg) h
    simp [Setting.apply, hshown] at hflag
  | load flag => exact absurd rfl hs

theorem applyTo_concat (cfg : ConfigMemory) (ss : List Setting) (s : Setting) :
    applyTo cfg (ss ++ [s]) = s.apply (applyTo cfg ss) :=
  List.foldl_concat ..

/-- The last setting that shows is seen in the struct. -/
theorem only_load {ss : List Setting} (h : ∀ cfg, applyTo cfg ss = cfg) :
    ∀ s ∈ ss, s.field = .load := by
  induction ss using List.reverseRecOn with
  | nil => simp
  | append_singleton ss s ih =>
    have hs : s.field = .load := by
      by_contra hne
      obtain ⟨cfg, hcfg⟩ := apply_shows hne
      exact hcfg _ ((applyTo_concat cfg ss s).symm.trans (h cfg))
    have hidle (cfg : ConfigMemory) : s.apply cfg = cfg := by
      cases s <;> first | rfl | cases hs
    intro t ht
    rcases List.mem_append.mp ht with ht | ht
    · refine ih (fun cfg => ?_) t ht
      rw [← hidle (applyTo cfg ss), ← applyTo_concat]
      exact h cfg
    · rw [List.mem_singleton.mp ht]
      exact hs

/-! ## What shows in the section -/

theorem readSetting_section {sec : ConfigSection} {key value : Bytes} {s : Setting}
    (h : readSetting sec key value = some s) : s.field.configSection = sec := by
  obtain ⟨f, hf, hs⟩ := Option.bind_eq_some_iff.mp h
  have hfield : s.field = f := by
    cases f with
    | word f =>
      rw [Field.read, Option.ite_none_right_eq_some] at hs
      cases hs.2
      rfl
    | text f =>
      cases hs
      rfl
    | int f | metric m | load =>
      obtain ⟨v, -, rfl⟩ := Option.map_eq_some_iff.mp hs
      rfl
  have hsec := List.find?_some hf
  rw [hfield]
  exact (of_decide_eq_true hsec).1

/-- What leaves the section `none` behind, without a setting that shows, was
read in it and skipped. -/
theorem readLine_quiet {sec : ConfigSection} {piece : Bytes} {s : Option Setting}
    (h : readLine sec piece = some (.none, s)) (hs : ∀ t ∈ s, t.field = .load) :
    sec = .none ∧ parseLine 0 piece = .ok none := by
  obtain ⟨found, hfound, hr⟩ := Option.bind_eq_some_iff.mp h
  cases found with
  | none =>
    cases hr
    cases hp : parseLine 0 piece with
    | error err =>
      rw [hp] at hfound
      cases hfound
    | ok l =>
      rw [hp] at hfound
      cases hfound
      exact ⟨rfl, rfl⟩
  | some l =>
    exfalso
    simp only [readEntry] at hr
    split_ifs at hr with hindent houtput hcollect hlog hsec
    · cases hr
    · cases hr
    · cases hr
    · -- a top-level key, and `load` is not one
      obtain ⟨t, ht, hr⟩ := Option.map_eq_some_iff.mp hr
      cases hr
      have htop := readSetting_section ht
      rw [hs t rfl] at htop
      cases htop
    · obtain ⟨t, -, hr⟩ := Option.map_eq_some_iff.mp hr
      exact hsec (congrArg Prod.fst hr)

theorem readPieces_quiet {sec : ConfigSection} {pieces : List Bytes}
    (hnext : (readPieces sec pieces).next = some .none)
    (hss : ∀ s ∈ (readPieces sec pieces).settings, s.field = .load) :
    sec = .none ∧ ∀ piece ∈ pieces, parseLine 0 piece = .ok none := by
  induction pieces generalizing sec with
  | nil => exact ⟨Option.some.inj hnext, by simp⟩
  | cons piece rest ih =>
    rw [readPieces, readPiece] at hnext hss
    cases hp : readLine sec piece with
    | none =>
      rw [hp] at hnext
      cases hnext
    | some r =>
      rw [hp] at hnext hss
      obtain ⟨hsec, hrest⟩ := ih hnext fun s hs => hss s (List.mem_append_right _ hs)
      obtain ⟨sec', s⟩ := r
      cases hsec
      obtain ⟨hnone, hpiece⟩ := readLine_quiet hp fun t ht =>
        hss t (List.mem_append_left _ (Option.mem_toList.mpr ht))
      exact ⟨hnone, by simpa using ⟨hpiece, hrest⟩⟩

theorem readPieces_skipped (sec : ConfigSection) {pieces : List Bytes}
    (h : ∀ piece ∈ pieces, parseLine 0 piece = .ok none) : readPieces sec pieces = .at sec := by
  induction pieces with
  | nil => rfl
  | cons piece rest ih =>
    have hline : readLine sec piece = some (sec, none) := by
      rw [readLine, h piece (by simp)]
      rfl
    rw [readPieces, readPiece, hline]
    exact ih fun p hp => h p (by simp [hp])

/-! ## The comment -/

/-- With the line inserted between any two lines, or before the first or behind the
last, the loader returns the same and leaves the same. -/
def NoEffect (line : Bytes) : Prop :=
  ∀ (files files' : Files) (path : Bytes) (cfg : ConfigMemory) (before after : List Bytes),
    files.read path = some (textOf (before ++ after)) →
    files'.read path = some (textOf (before ++ line :: after)) →
    (loadConfigFile files' path cfg).1 = (loadConfigFile files path cfg).1 ∧
      (loadConfigFile files' path cfg).2.2 = (loadConfigFile files path cfg).2.2

theorem noEffect_of_skipped {line : Bytes}
    (h : ∀ piece ∈ fgetsAll 1024 [] line, parseLine 0 piece = .ok none) : NoEffect line := by
  intro files files' path cfg before after hread hread'
  have hsame : readText .none (before ++ line :: after) = readText .none (before ++ after) := by
    rw [readText_append, readText_append]
    simp only [readText, readPieces_skipped _ h, Reading.at_andThen]
  obtain ⟨hcode, hcfg⟩ := load_textOf hread cfg
  obtain ⟨hcode', hcfg'⟩ := load_textOf hread' cfg
  rw [hcode, hcode', hcfg, hcfg', hsame]
  exact ⟨rfl, rfl⟩

/-- A line that only its section accepts. -/
def probe : ConfigSection → Bytes
  | .collect => ascii "  load: true"
  | _ => ascii "  path: x"

theorem probe_accepted {sec : ConfigSection} (h : sec ≠ .none) :
    (readText sec [probe sec]).next ≠ none := by
  cases sec with
  | none => exact absurd rfl h
  | output => decide +kernel
  | collect => decide +kernel
  | log => decide +kernel

theorem probe_refused (sec : ConfigSection) : (readText .none [probe sec]).next = none := by
  cases sec <;> decide +kernel

/-- The line in front of some others. -/
theorem NoEffect.in_front {line : Bytes} (h : NoEffect line) (after : List Bytes) :
    (readText .none (line :: after)).next.isSome = (readText .none after).next.isSome ∧
      ∀ cfg, applyTo cfg (readText .none (line :: after)).settings =
        applyTo cfg (readText .none after).settings := by
  let files : Files := ⟨textOf after, fun _ => none⟩
  let files' : Files := ⟨textOf (line :: after), fun _ => none⟩
  have hread : files.read (ascii "-") = some (textOf after) := rfl
  have hread' : files'.read (ascii "-") = some (textOf (line :: after)) := rfl
  have hsame (cfg : ConfigMemory) := h files files' (ascii "-") cfg [] after hread hread'
  constructor
  · have hcode := (hsame .zero).1
    rw [(load_textOf hread .zero).1, (load_textOf hread' .zero).1] at hcode
    cases hnext : (readText .none after).next.isSome <;>
      cases hnext' : (readText .none (line :: after)).next.isSome <;> simp_all
  · intro cfg
    rw [← (load_textOf hread cfg).2, ← (load_textOf hread' cfg).2]
    exact (hsame cfg).2

theorem skipped_of_noEffect {line : Bytes} (h : NoEffect line) :
    ∀ piece ∈ fgetsAll 1024 [] line, parseLine 0 piece = .ok none := by
  have hempty := h.in_front []
  rw [readText_singleton, readText] at hempty
  have hload := only_load hempty.2
  obtain ⟨sec, hsec⟩ := Option.isSome_iff_exists.mp hempty.1
  by_cases hnone : sec = .none
  · rw [hnone] at hsec
    exact (readPieces_quiet hsec hload).2
  · -- the section that was entered accepts a line that is refused without it
    have hprobe := (h.in_front [probe sec]).1
    rw [probe_refused, readText, Reading.andThen, hsec] at hprobe
    exact absurd (Option.isSome_eq_false_iff.mp hprobe) (by simpa using probe_accepted hnone)

theorem FullLineComment.piece_noNul {line : Bytes} (h : FullLineComment line) {piece : Bytes}
    (hp : piece ∈ fgetsAll 1024 [] line) : (0 : UInt8) ∉ piece := by
  intro h0
  have hmem := List.mem_flatten.mpr ⟨piece, hp, h0⟩
  rw [fgetsAll_flatten] at hmem
  exact h.noNul hmem

/-- The piece with the `#` is skipped, so that a comment that fits has no effect. -/
theorem FullLineComment.skipped_of_short {line : Bytes} (h : FullLineComment line)
    (hlen : line.length < 1024) : ∀ piece ∈ fgetsAll 1024 [] line, Skipped piece := by
  obtain ⟨blanks, body, hline, hblanks⟩ := h.start
  have hpiece : fgetsAll 1024 [] line = [line] :=
    fgetsAll_short h.noNewline (by simp [hline]) (by simpa using hlen)
  rw [hpiece, List.forall_mem_singleton, hline, Skipped, ltrim_start hblanks rfl]
  exact .inr rfl

/-- **A comment has no effect exactly when each of its pieces is blank or starts
with `#`.** The loader does not know that a piece belongs to a comment that began
before it. -/
theorem full_line_comment_no_effect_iff {line : Bytes} (h : FullLineComment line) :
    NoEffect line ↔ ∀ piece ∈ fgetsAll 1024 [] line, Skipped piece := by
  constructor
  · intro heffect piece hp
    exact (parseLine_none_iff 0 (h.piece_noNul hp)).mp (skipped_of_noEffect heffect piece hp)
  · intro hskip
    refine noEffect_of_skipped fun piece hp => ?_
    exact (parseLine_none_iff 0 (h.piece_noNul hp)).mpr (hskip piece hp)

/-- `"` and a second `#` in a comment behind a blank and a tab. -/
def shortComment : Bytes := ascii " \t# every 5 s: # and \"quoted"

theorem full_line_comment_no_effect_iff_example :
    FullLineComment shortComment ∧ NoEffect shortComment :=
  have h : FullLineComment shortComment :=
    ⟨⟨ascii " \t", ascii " every 5 s: # and \"quoted", by decide, by decide⟩, by decide, by decide⟩
  ⟨h, (full_line_comment_no_effect_iff h).mpr (h.skipped_of_short (by decide))⟩

/-- A rule of 1022 dashes behind the `#`, and a key behind it. -/
def longComment : Bytes := 35 :: (List.replicate 1022 45 ++ ascii "poll_interval_seconds: 5")

theorem longComment_fullLine : FullLineComment longComment :=
  ⟨⟨[], longComment.tail, rfl, by decide⟩, by decide +kernel, by decide +kernel⟩

/-- **A long comment sets the interval.** -/
theorem comment_sets_interval : ¬∀ line, FullLineComment line → NoEffect line := by
  intro h
  obtain ⟨-, hcfg⟩ := h longComment longComment_fullLine ⟨[], fun _ => none⟩
    ⟨textOf [longComment], fun _ => none⟩ (ascii "-") .initDefaultConfig [] [] rfl rfl
  have hset : (loadConfigFile ⟨textOf [longComment], fun _ => none⟩ (ascii "-")
      .initDefaultConfig).2.2.intervalSec = 5 := by
    decide +kernel
  rw [hcfg] at hset
  revert hset
  decide +kernel

end Syswatch.ConfigComments
