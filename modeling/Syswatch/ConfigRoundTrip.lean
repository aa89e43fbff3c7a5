import Syswatch.ConfigText

/-! # Loading undoes writing

A list of settings is written one line for each setting, with its section's
header in front, and strings in double quotes. Reading the text gives the list
back, whatever the strings hold between their quotes. -/

namespace Syswatch.ConfigRoundTrip
open Lib.CText ConfigText

/-! ## Writing -/

def quoted (s : Bytes) : Bytes := 34 :: (s ++ [34])

def boolText (flag : Bool) : Bytes := if flag then ascii "true" else ascii "false"

/-- The value as it is read. -/
def plainValue : Setting → Bytes
  | .word _ w => w
  | .int _ n => decimal n.toInt.toNat
  | .text _ s => s
  | .metric _ flag | .load flag => boolText flag

/-- The value as it is written. -/
def valueText : Setting → Bytes
  | .word _ w => quoted w
  | .text _ s => quoted s
  | s => plainValue s

def sectionName : ConfigSection → Bytes
  | .none => []
  | .output => ascii "output"
  | .collect => ascii "collect"
  | .log => ascii "log"

def pairText (key v : Bytes) : Bytes := key ++ ascii ": " ++ v

def linesOf (s : Setting) : List Bytes :=
  if s.field.configSection = .none then [pairText s.field.key (valueText s)]
  else [sectionName s.field.configSection ++ ascii ":",
    ascii "  " ++ pairText s.field.key (valueText s)]

def render (ss : List Setting) : Bytes := (ss.flatMap linesOf).flatMap (· ++ [10])

/-- A valid value; a string has no quote, newline or NUL and is shorter than its array. -/
def Writable : Setting → Prop
  | .text f s => (∀ b ∈ s, b ≠ 34 ∧ b ≠ 10 ∧ b ≠ 0) ∧ s.length < f.size
  | s => s.Valid

/-- The assignment of the value to the field. -/
def assign (cfg : ConfigMemory) : Setting → ConfigMemory
  | .word f w => f.set cfg (Buffer.ofText 16 w)
  | .int f n => f.set cfg n
  | .text f s => f.set cfg (Buffer.ofText f.size s)
  | .metric m flag => m.set cfg flag
  | .load _ => cfg

/-! ## Assigning -/

theorem allowed_fits {f : WordField} {w : Bytes} (hw : w ∈ f.allowed) :
    (∀ b ∈ w, b ≠ 34 ∧ b ≠ 10 ∧ b ≠ 0) ∧ w.length < 16 := by
  have h : ∀ f : WordField, f.allowed.all fun w =>
      w.all (fun b => b != 34 && b != 10 && b != 0) && w.length < 16 := by
    intro f
    cases f <;> decide +kernel
  simpa [List.all_eq_true, and_assoc] using List.all_eq_true.mp (h f) w hw

theorem apply_eq_assign {cfg : ConfigMemory} (hcfg : Terminated cfg) {s : Setting}
    (hs : Writable s) : s.apply cfg = assign cfg s := by
  cases s with
  | word f w =>
    obtain ⟨hplain, hfit⟩ := allowed_fits hs
    rw [Setting.apply, assign,
      Buffer.strncpy_fits (hcfg.word f) (fun h => (hplain 0 h).2.2 rfl) hfit]
  | text f t =>
    rw [Setting.apply, assign,
      Buffer.strncpy_fits (hcfg.text f) (fun h => (hs.1 0 h).2.2 rfl) hs.2]
  | int f n => rfl
  | metric m flag => rfl
  | load flag => rfl

theorem applyTo_eq_assign {ss : List Setting} (hss : ∀ s ∈ ss, Writable s) :
    ∀ {cfg : ConfigMemory}, Terminated cfg → applyTo cfg ss = ss.foldl assign cfg := by
  induction ss with
  | nil => intro cfg _; rfl
  | cons s ss ih =>
    intro cfg hcfg
    rw [applyTo, List.foldl_cons, List.foldl_cons, ← apply_eq_assign hcfg (hss s (by simp))]
    exact ih (fun t ht => hss t (by simp [ht])) (hcfg.apply s)

/-! ## Reading the values back -/

theorem parseIntValue_decimal {n : Int32} {lo hi : Int} (h0 : 0 ≤ n.toInt) (hlo : lo ≤ n.toInt)
    (hhi : n.toInt ≤ hi) : parseIntValue (decimal n.toInt.toNat) lo hi = some n := by
  have hn : ((n.toInt.toNat : Nat) : Int) = n.toInt := Int.toNat_of_nonneg h0
  have hlt : n.toInt < 2 ^ 31 := n.toInt_lt
  rw [parseIntValue, parseBoundedInt, strtol_decimal (by omega)]
  dsimp only
  rw [hn, if_neg (by simp; omega), Int32.ofInt_toInt]

theorem read_plainValue {s : Setting} (hs : Writable s) :
    s.field.read (plainValue s) = some s := by
  cases s with
  | word f w => exact if_pos hs
  | text f t => rfl
  | int f n =>
    have h0 : 0 ≤ f.min := by cases f <;> decide
    simp only [Setting.field, Field.read, plainValue]
    rw [parseIntValue_decimal (h0.trans hs.1) hs.1 hs.2]
    rfl
  | metric m flag => cases flag <;> rfl
  | load flag => cases flag <;> rfl

/-! ## One line -/

/-- A key, or a value written without quotes. -/
def Word (w : Bytes) : Prop :=
  w ≠ [] ∧ ∀ b ∈ w, b ≠ 0 ∧ b ≠ 10 ∧ b ≠ 34 ∧ b ≠ 35 ∧ b ≠ 58 ∧ isBlank b = false

/-- The text `v` stands for `value`. -/
inductive Written (value : Bytes) : Bytes → Prop where
  | word (h : Word value) : Written value value
  | quoted (h : ∀ b ∈ value, b ≠ 34 ∧ b ≠ 10 ∧ b ≠ 0) : Written value (quoted value)

/-- There is no blank at the ends. -/
def Trimmed (t : Bytes) : Prop :=
  (∃ b rest, t = b :: rest ∧ isBlank b = false) ∧ ∃ front b, t = front ++ [b] ∧ isBlank b = false

theorem Trimmed.ltrim {t : Bytes} (h : Trimmed t) (rest : Bytes) : ltrim (t ++ rest) = t ++ rest := by
  obtain ⟨b, tail, rfl, hb⟩ := h.1
  rw [Syswatch.ltrim, List.cons_append, List.dropWhile_cons_of_neg (by simp [hb])]

theorem Trimmed.ltrim_self {t : Bytes} (h : Trimmed t) : Syswatch.ltrim t = t := by
  have := h.ltrim []
  rwa [List.append_nil] at this

theorem Trimmed.rtrim {t : Bytes} (h : Trimmed t) : rtrim t = t := by
  obtain ⟨front, b, rfl, hb⟩ := h.2
  exact List.rdropWhile_concat_neg _ _ _ (by simp [hb])

theorem Trimmed.append {s t : Bytes} (hs : Trimmed s) (ht : Trimmed t) (mid : Bytes) :
    Trimmed (s ++ mid ++ t) := by
  obtain ⟨b, rest, rfl, hb⟩ := hs.1
  obtain ⟨front, c, rfl, hc⟩ := ht.2
  exact ⟨⟨b, rest ++ mid ++ (front ++ [c]), by simp, hb⟩, b :: rest ++ mid ++ front, c, by simp, hc⟩

theorem Word.trimmed {w : Bytes} (h : Word w) : Trimmed w := by
  obtain ⟨hne, hw⟩ := h
  constructor
  · obtain ⟨b, rest, rfl⟩ := List.exists_cons_of_ne_nil hne
    exact ⟨b, rest, rfl, (hw b (by simp)).2.2.2.2.2⟩
  · obtain ⟨front, b, rfl⟩ := (List.eq_nil_or_concat w).resolve_left hne
    exact ⟨front, b, by simp, (hw b (by simp)).2.2.2.2.2⟩

theorem Written.trimmed {value v : Bytes} (h : Written value v) : Trimmed v := by
  cases h with
  | word h => exact h.trimmed
  | quoted h => exact ⟨⟨34, value ++ [34], rfl, rfl⟩, 34 :: value, 34, rfl, rfl⟩

/-- What has no quote is its own text. -/
theorem Word.unquote {w : Bytes} (h : Word w) : unquote w = w := by
  refine if_neg fun ⟨_, hq, _⟩ => ?_
  obtain ⟨rest, rfl⟩ := List.head?_eq_some_iff.mp hq
  exact (h.2 34 (by simp)).2.2.1 rfl

theorem Written.unquote {value v : Bytes} (h : Written value v) : unquote v = value := by
  cases h with
  | word h => exact h.unquote
  | quoted h =>
    rw [Syswatch.unquote, ConfigRoundTrip.quoted, if_pos]
    · simp
    · refine ⟨by simp, rfl, ?_⟩
      rw [← List.cons_append, List.getLast?_concat]

theorem cutComment_plain {s : Bytes} (hs : ∀ b ∈ s, b ≠ 34 ∧ b ≠ 35) (atWord : Bool) (rest : Bytes) :
    ∃ w, cutComment false atWord (s ++ rest) = s ++ cutComment false w rest := by
  induction s generalizing atWord with
  | nil => exact ⟨atWord, rfl⟩
  | cons c s ih =>
    obtain ⟨h34, h35⟩ := hs c (by simp)
    obtain ⟨w, hw⟩ := ih (fun b hb => hs b (by simp [hb])) (isSpace c)
    refine ⟨w, ?_⟩
    rw [List.cons_append, cutComment, if_neg h34, if_neg (by simp [h35]), hw]
    rfl

/-- Between quotes nothing starts a comment. -/
theorem cutComment_quoted {s : Bytes} (hs : (34 : UInt8) ∉ s) (atWord : Bool) (rest : Bytes) :
    cutComment true atWord (s ++ 34 :: rest) = s ++ 34 :: cutComment false false rest := by
  induction s generalizing atWord with
  | nil => rfl
  | cons c s ih =>
    rw [List.mem_cons, not_or] at hs
    rw [List.cons_append, cutComment, if_neg (Ne.symm hs.1), if_neg (by simp), ih hs.2]
    rfl

theorem Written.comment {value v : Bytes} (h : Written value v) {s : Bytes}
    (hs : ∀ b ∈ s, b ≠ 34 ∧ b ≠ 35) :
    cutComment false true (s ++ (v ++ [10])) = s ++ (v ++ [10]) := by
  obtain ⟨w, hw⟩ := cutComment_plain hs true (v ++ [10])
  rw [hw]
  congr 1
  cases h with
  | word h =>
    obtain ⟨w', hw'⟩ := cutComment_plain (fun b hb => ⟨(h.2 b hb).2.2.1, (h.2 b hb).2.2.2.1⟩) w [10]
    rw [hw']
    rfl
  | quoted h =>
    have h34 : (34 : UInt8) ∉ value := fun hb => (h 34 hb).1 rfl
    rw [ConfigRoundTrip.quoted, List.cons_append, List.append_assoc, List.singleton_append, cutComment,
      if_pos rfl, Bool.not_false, cutComment_quoted h34]
    rfl

variable {key value v : Bytes}

theorem pairText_trimmed (hkey : Word key) (hv : Written value v) : Trimmed (pairText key v) :=
  hkey.trimmed.append hv.trimmed _

theorem pairText_noNul (hkey : Word key) (hv : Written value v) : (0 : UInt8) ∉ pairText key v := by
  have hcolon : (0 : UInt8) ∉ ascii ": " := by decide
  have hv0 : (0 : UInt8) ∉ v := by
    cases hv with
    | word h => exact fun h0 => (h.2 0 h0).1 rfl
    | quoted h =>
      intro h0
      simp only [quoted, List.mem_cons, List.mem_append, List.mem_nil_iff, or_false] at h0
      rcases h0 with h0 | h0 | h0
      · exact absurd h0 (by decide)
      · exact (h 0 h0).2.2 rfl
      · exact absurd h0 (by decide)
  simp only [pairText, List.mem_append, not_or]
  exact ⟨⟨fun h => (hkey.2 0 h).1 rfl, hcolon⟩, hv0⟩

/-- Neither the comment nor the blanks at the ends take anything but the newline. -/
theorem cursor_written (hkey : Word key) (hv : Written value v) :
    rtrim (ltrim (stripInlineComment (pairText key v ++ [10]))) = pairText key v := by
  have hpair := pairText_trimmed hkey hv
  have hcolon : ∀ b ∈ ascii ": ", b ≠ 34 ∧ b ≠ 35 := by decide
  have hcomment : cutComment false true (pairText key v ++ [10]) = pairText key v ++ [10] := by
    rw [pairText, List.append_assoc]
    apply hv.comment
    intro b hb
    rcases List.mem_append.mp hb with hb | hb
    · exact ⟨(hkey.2 b hb).2.2.1, (hkey.2 b hb).2.2.2.1⟩
    · exact hcolon b hb
  have hnewline : rtrim (pairText key v ++ [10]) = pairText key v := by
    rw [rtrim, List.rdropWhile_concat_pos _ _ _ (by rfl), ← rtrim, hpair.rtrim]
  rw [stripInlineComment, hcomment, hnewline, hpair.ltrim_self, hpair.rtrim]

/-- The first colon is the one behind the key. -/
theorem pairText_split (hkey : Word key) : (58 : UInt8) ∈ pairText key v ∧
    (pairText key v).takeWhile (· != 58) = key ∧
    ((pairText key v).dropWhile (· != 58)).tail = 32 :: v := by
  have hsplit : pairText key v = key ++ 58 :: 32 :: v := by
    simp only [pairText, List.append_assoc]
    rfl
  have hcolon : ∀ b ∈ key, (b != 58) = true := fun b hb => by simpa using (hkey.2 b hb).2.2.2.2.1
  rw [hsplit]
  refine ⟨by simp, ?_, ?_⟩
  · rw [List.takeWhile_append_of_pos hcolon]
    simp
  · rw [List.dropWhile_append_of_pos hcolon]
    simp

/-- **A line that was written is read.** -/
theorem parseLine_written {indent : Nat} (hindent : indent = 0 ∨ indent = 2) (hkey : Word key)
    (hv : Written value v) :
    parseLine 0 (List.replicate indent 32 ++ pairText key v ++ [10]) =
      .ok (some ⟨indent, key, value⟩) := by
  have hpair := pairText_trimmed hkey hv
  obtain ⟨hcolon, htake, hdrop⟩ := pairText_split (v := v) hkey
  obtain ⟨k, tail, hk, -⟩ := hkey.trimmed.1
  obtain ⟨-, h10, -, h35, -, hblank⟩ := hkey.2 k (by simp [hk])
  have htext : cstr (List.replicate indent 32 ++ pairText key v ++ [10]) =
      List.replicate indent 32 ++ (pairText key v ++ [10]) := by
    rw [List.append_assoc]
    apply cstr_of_noNul
    simp [pairText_noNul hkey hv]
  have hstart : (ltrim (List.replicate indent 32 ++ (pairText key v ++ [10]))).head? = some k := by
    have hblanks : ∀ b ∈ List.replicate indent (32 : UInt8), isBlank b = true := by
      intro b hb
      rw [List.eq_of_mem_replicate hb]
      rfl
    rw [ltrim, List.dropWhile_append_of_pos hblanks, ← ltrim, hpair.ltrim, pairText, hk]
    rfl
  have hcount : ((List.replicate indent 32 ++ (pairText key v ++ [10])).takeWhile (· == 32)).length =
      indent := by
    have hk32 : k ≠ 32 := by
      rintro rfl
      cases hblank
    rw [List.takeWhile_append_of_pos (by simp), pairText, hk, List.cons_append, List.cons_append,
      List.cons_append, List.takeWhile_cons_of_neg (by simpa using hk32)]
    simp
  have hvalue : rtrim (ltrim (32 :: v)) = v := by
    rw [ltrim, List.dropWhile_cons_of_pos rfl, ← ltrim, hv.trimmed.ltrim_self, hv.trimmed.rtrim]
  unfold parseLine
  dsimp only
  rw [htext, hstart, hcount, List.drop_left' (List.length_replicate ..), cursor_written hkey hv, htake,
    hdrop, hvalue, hkey.trimmed.ltrim_self, hkey.trimmed.rtrim, hkey.unquote, hv.unquote, if_neg,
    if_neg (by omega), if_neg (List.ne_nil_of_mem hcolon), if_neg (not_not_intro hcolon)]
  simp [h10, h35]

/-! ## The whole text -/

theorem word_key (f : Field) : Word f.key := by
  have h : Field.all.all fun f => f.key != [] && f.key.all fun b =>
      b != 0 && b != 10 && b != 34 && b != 35 && b != 58 && !isBlank b := by
    decide +kernel
  have hf := List.all_eq_true.mp h f (mem_all f)
  simpa [Word, and_assoc] using hf

theorem word_decimal (n : Nat) : Word (decimal n) := by
  refine ⟨decimal_ne_nil n, fun b hb => ?_⟩
  have hd := isDigit_of_mem_decimal hb
  have hr : 48 ≤ b.toNat ∧ b.toNat ≤ 57 := by simpa [isDigit, UInt8.le_iff_toNat_le] using hd
  have hne : ∀ c : UInt8, isDigit c = false → b ≠ c := by
    rintro c hc rfl
    rw [hd] at hc
    cases hc
  refine ⟨hne 0 rfl, hne 10 rfl, hne 34 rfl, hne 35 rfl, hne 58 rfl, ?_⟩
  simp [isBlank, hne 32 rfl, hne 9 rfl, hne 13 rfl, hne 10 rfl]

theorem word_boolText (flag : Bool) : Word (boolText flag) := by
  unfold Word
  revert flag
  decide

theorem written_value {s : Setting} (hs : Writable s) : Written (plainValue s) (valueText s) := by
  cases s with
  | word f w => exact .quoted (allowed_fits hs).1
  | int f n => exact .word (word_decimal _)
  | text f t => exact .quoted hs.1
  | metric m flag => exact .word (word_boolText flag)
  | load flag => exact .word (word_boolText flag)

theorem readEntry_written {s : Setting} (hs : Writable s) :
    readEntry s.field.configSection
      ⟨if s.field.configSection = .none then 0 else 2, s.field.key, plainValue s⟩ =
      some (s.field.configSection, some s) := by
  have hread := readSetting_self s.field (plainValue s)
  rw [read_plainValue hs] at hread
  unfold readEntry
  by_cases hsec : s.field.configSection = .none
  · have hall : Field.all.all fun f => f.configSection != .none ||
        (f.key != ascii "output" && f.key != ascii "collect" && f.key != ascii "log") := by
      decide +kernel
    have hkey := List.all_eq_true.mp hall s.field (mem_all _)
    simp only [hsec, bne_self_eq_false, Bool.false_or, Bool.and_eq_true, bne_iff_ne] at hkey
    rw [hsec] at hread
    simp [hsec, hkey, hread]
  · simp [hsec, hread]

/-- At the top level the section before the line does not matter. -/
theorem readLine_top (sec : ConfigSection) {s : Setting} (hs : Writable s)
    (hsec : s.field.configSection = .none) :
    readLine sec (pairText s.field.key (valueText s) ++ [10]) = some (.none, some s) := by
  have hentry := readEntry_written hs
  rw [hsec, if_pos rfl] at hentry
  rw [readLine, show pairText s.field.key (valueText s) =
    List.replicate 0 32 ++ pairText s.field.key (valueText s) from rfl,
    parseLine_written (.inl rfl) (word_key s.field) (written_value hs)]
  exact hentry

theorem readLine_nested {s : Setting} (hs : Writable s) (hsec : s.field.configSection ≠ .none) :
    readLine s.field.configSection (ascii "  " ++ pairText s.field.key (valueText s) ++ [10]) =
      some (s.field.configSection, some s) := by
  have hentry := readEntry_written hs
  rw [if_neg hsec] at hentry
  rw [readLine, show ascii "  " = List.replicate 2 32 from rfl,
    parseLine_written (.inr rfl) (word_key s.field) (written_value hs)]
  exact hentry

theorem readLine_header (sec : ConfigSection) {target : ConfigSection} (h : target ≠ .none) :
    readLine sec (sectionName target ++ ascii ":" ++ [10]) = some (target, none) := by
  have hparse : parseLine 0 (sectionName target ++ ascii ":" ++ [10]) =
      .ok (some ⟨0, sectionName target, []⟩) := by
    cases target with
    | none => exact absurd rfl h
    | output => rfl
    | collect => rfl
    | log => rfl
  rw [readLine, hparse]
  cases target with
  | none => exact absurd rfl h
  | output => rfl
  | collect => rfl
  | log => rfl

/-- **Reading undoes writing**, in any section. -/
theorem readLines_written {ss : List Setting} (hss : ∀ s ∈ ss, Writable s) (sec : ConfigSection) :
    readLines sec ((ss.flatMap linesOf).map (· ++ [10])) = (ss, true) := by
  induction ss generalizing sec with
  | nil => rfl
  | cons s ss ih =>
    have hs := hss s (by simp)
    have hrest := ih (fun t ht => hss t (by simp [ht]))
    by_cases hsec : s.field.configSection = .none
    · rw [List.flatMap_cons, linesOf, if_pos hsec, List.singleton_append, List.map_cons,
        readLines_read (readLine_top sec hs hsec), hrest]
      rfl
    · rw [List.flatMap_cons, linesOf, if_neg hsec, List.cons_append, List.singleton_append,
        List.map_cons, List.map_cons, readLines_read (readLine_header sec hsec),
        readLines_read (readLine_nested hs hsec), hrest]
      rfl

theorem valueText_fits {s : Setting} (hs : Writable s) :
    (10 : UInt8) ∉ valueText s ∧ (valueText s).length ≤ 257 := by
  have hquoted {t : Bytes} (ht : ∀ b ∈ t, b ≠ 34 ∧ b ≠ 10 ∧ b ≠ 0) (hlen : t.length < 256) :
      (10 : UInt8) ∉ quoted t ∧ (quoted t).length ≤ 257 := by
    have h10 : (10 : UInt8) ∉ t := fun h => (ht 10 h).2.1 rfl
    refine ⟨?_, by simp [quoted]; omega⟩
    simp [quoted, h10]
  have hbool : ∀ flag, (10 : UInt8) ∉ boolText flag ∧ (boolText flag).length ≤ 257 := by decide
  cases s with
  | word f w =>
    obtain ⟨hw, hlen⟩ := allowed_fits hs
    exact hquoted hw (by omega)
  | text f t =>
    have hsize : f.size ≤ 256 := by cases f <;> decide
    have hlen := hs.2
    exact hquoted hs.1 (by omega)
  | int f n =>
    refine ⟨fun h => ((word_decimal _).2 10 h).2.1 rfl, ?_⟩
    have hlt : n.toInt < 2 ^ 31 := n.toInt_lt
    have hlen := (decimal_length_le_iff (n := n.toInt.toNat) (k := 10) (by decide)).mpr (by omega)
    exact hlen.trans (by decide)
  | metric m flag => exact hbool flag
  | load flag => exact hbool flag

/-- Every line fits the buffer of `fgets`. -/
theorem linesOf_fit {s : Setting} (hs : Writable s) :
    ∀ l ∈ linesOf s, (10 : UInt8) ∉ l ∧ l.length ≤ 1022 := by
  obtain ⟨h10, hlen⟩ := valueText_fits hs
  have hkey10 : (10 : UInt8) ∉ s.field.key := fun h => ((word_key s.field).2 10 h).2.1 rfl
  have hkey : s.field.key.length ≤ 22 := by
    have hall : Field.all.all fun f => f.key.length ≤ 22 := by decide +kernel
    simpa using List.all_eq_true.mp hall s.field (mem_all _)
  have hpair : (10 : UInt8) ∉ pairText s.field.key (valueText s) ∧
      (pairText s.field.key (valueText s)).length ≤ 281 := by
    have hcolon : (10 : UInt8) ∉ ascii ": " ∧ (ascii ": ").length = 2 := by decide
    simp only [pairText, List.mem_append, List.length_append, not_or]
    exact ⟨⟨⟨hkey10, hcolon.1⟩, h10⟩, by omega⟩
  unfold linesOf
  split
  · intro l hl
    rw [List.mem_singleton.mp hl]
    exact ⟨hpair.1, by omega⟩
  · intro l hl
    rcases List.mem_cons.mp hl with rfl | hl
    · cases s.field.configSection <;> decide
    · have hblanks : (10 : UInt8) ∉ ascii "  " ∧ (ascii "  ").length = 2 := by decide
      rw [List.mem_singleton.mp hl, List.mem_append, List.length_append, not_or]
      exact ⟨⟨hblanks.1, hpair.1⟩, by omega⟩

/-- **Loading undoes writing.** The text of any list of settings is accepted, and
leaves the assignments in the order of the file. -/
theorem load_render {files : Files} {path : Bytes} {cfg : ConfigMemory} {ss : List Setting}
    (hread : files.read path = some (render ss)) (hcfg : Terminated cfg)
    (hss : ∀ s ∈ ss, Writable s) :
    loadConfigFile files path cfg = (0, none, ss.foldl assign cfg) := by
  have hlines : fgetsAll 1024 [] (render ss) = (ss.flatMap linesOf).map (· ++ [10]) := by
    apply fgetsAll_lines
    intro l hl
    obtain ⟨s, hs, hl⟩ := List.mem_flatMap.mp hl
    obtain ⟨h10, hlen⟩ := linesOf_fit (hss s hs) l hl
    exact ⟨h10, by omega⟩
  have hread' := readLines_written hss .none
  rw [← hlines] at hread'
  obtain ⟨heq, hzero, hnone⟩ := load_eq hread cfg
  have haccepted : Accepted (render ss) := congrArg Prod.snd hread'
  have hsettings : settingsOf (render ss) = ss := congrArg Prod.fst hread'
  rw [hsettings, applyTo_eq_assign hss hcfg] at heq
  exact Prod.ext (hzero.mpr haccepted) (Prod.ext (hnone.mpr haccepted) heq)

/-- The second URL is shorter than the first, which looks like a comment. -/
def sampleSettings : List Setting :=
  [.text .outputUrl (ascii " http://a:1/ #b \t"), .metric .cpu false,
    .int .pollIntervalSeconds 86400, .text .outputUrl (ascii "#"), .word .outputType (ascii "file"),
    .text .logPath [], .load true]

theorem load_render_example :
    loadConfigFile ⟨render sampleSettings, fun _ => none⟩ (ascii "-") .initDefaultConfig =
        (0, none, sampleSettings.foldl assign .initDefaultConfig) ∧
      (sampleSettings.foldl assign .initDefaultConfig).outputUrl = Buffer.ofText 256 (ascii "#") :=
  ⟨load_render rfl terminated_initDefaultConfig (by
    simp only [sampleSettings, List.forall_mem_cons]
    refine ⟨?_, trivial, ?_, ?_, ?_, ?_, trivial, by simp⟩
    · exact ⟨by decide, by decide⟩
    · exact ⟨by decide, by decide⟩
    · exact ⟨by decide, by decide⟩
    · exact (by decide : ascii "file" ∈ WordField.allowed .outputType)
    · exact ⟨by decide, by decide⟩), rfl⟩

end Syswatch.ConfigRoundTrip
