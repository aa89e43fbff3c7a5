import Syswatch.Lib.Words
import Syswatch.ParseUll
import Syswatch.ProcessList

/-! # A process and its name

The name in `/proc/<pid>/stat` is any text a process gives itself. It is found
between the first opening and the last closing parenthesis of a line, so that
only a line break in it goes wrong. -/

namespace Syswatch.ProcessStatText
open Lib.CText Lib.Words ProcessList

/-! ## Finding the parentheses -/

theorem findIdx_append {c : UInt8} {s : Bytes} (h : c ∉ s) (t : Bytes) :
    (s ++ c :: t).findIdx? (· == c) = some s.length := by
  have hnone : s.findIdx? (· == c) = none := by
    rw [List.findIdx?_eq_none_iff]
    intro b hb
    refine beq_eq_false_iff_ne.mpr ?_
    rintro rfl
    exact h hb
  rw [List.findIdx?_append, hnone, List.findIdx?_cons]
  simp

theorem strchr_append {c : UInt8} {s : Bytes} (h : c ∉ s) (t : Bytes) :
    strchr (s ++ c :: t) c = some s.length := findIdx_append h t

theorem strrchr_append {c : UInt8} {t : Bytes} (h : c ∉ t) (s : Bytes) :
    strrchr (s ++ c :: t) c = some s.length := by
  have hrev : (s ++ c :: t).reverse = t.reverse ++ c :: s.reverse := by simp
  rw [strrchr, hrev, findIdx_append (by simpa using h), Option.map_some, List.length_reverse]
  congr 1
  rw [List.length_append, List.length_cons]
  omega

/-- The position lies in the text. -/
theorem strrchr_lt {c : UInt8} {s : Bytes} {k : Nat} (h : strrchr s c = some k) : k < s.length := by
  obtain ⟨i, hi, rfl⟩ := Option.map_eq_some_iff.mp h
  have := (List.findIdx?_eq_some_iff_getElem.mp hi).1
  rw [List.length_reverse] at this
  omega

/-- Tokens do not reach over a delimiter. -/
theorem strtokAll_split {delim : UInt8 → Bool} {d : UInt8} (hd : delim d = true) (acc s rest : Bytes) :
    strtokAll delim acc (s ++ d :: rest) = strtokAll delim acc s ++ strtokAll delim [] rest := by
  induction s generalizing acc with
  | nil =>
    rw [List.nil_append, strtokAll.eq_2, if_pos hd, strtokAll.eq_1]
    split <;> rfl
  | cons c s ih =>
    rw [List.cons_append, strtokAll, strtokAll]
    split
    · split
      · exact ih []
      · rw [ih [], List.cons_append]
    · exact ih _

/-! ## The text -/

/-- A field behind the name. -/
structure Field extends Word where
  noParen : (41 : UInt8) ∉ text

/-- A number of any size. -/
structure Digits where
  text : Bytes
  nonempty : text ≠ []
  digits : ∀ b ∈ text, isDigit b = true

def Digits.value (n : Digits) : Nat := digitsValue n.text

theorem Digits.not_mem (n : Digits) {b : UInt8} (hb : isDigit b = false) : b ∉ n.text := fun h => by
  rw [n.digits b h] at hb
  cases hb

def Digits.field (n : Digits) : Field where
  text := n.text
  nonempty := n.nonempty
  noSpace b hb := not_isSpace_of_isDigit (n.digits b hb)
  noNul := n.not_mem rfl
  noParen := n.not_mem rfl

/-- `pid (comm) state f4 f5 … f52`, with or without a newline at the end. -/
structure StatText where
  pid : Digits
  name : Bytes
  named : 1 ≤ name.length ∧ name.length ≤ 15
  nameNoNul : (0 : UInt8) ∉ name
  state : Field
  /-- The fields 4 to 13. -/
  before : List Field
  beforeCount : before.length = 10
  utime : Digits
  stime : Digits
  /-- The fields 16 to 52. -/
  after : List Field
  afterCount : after.length = 37
  newline : Bool

namespace StatText

variable (t : StatText)

/-- Fields with a blank in front of each. -/
def blanked (fields : List Field) : Bytes := spaced (fields.map fun f => ([32], f.text))

/-- The fields that `read_process_stat` looks at, with those between them. -/
def front : Bytes := t.state.text ++ blanked (t.before ++ [t.utime.field, t.stime.field])

/-- What follows the name. -/
def rest : Bytes := 32 :: (t.front ++ blanked t.after)

def line : Bytes := t.pid.text ++ 32 :: 40 :: (t.name ++ 41 :: t.rest)

def ending : Bytes := if t.newline then [10] else []

def text : Bytes := t.line ++ t.ending

end StatText

theorem mem_blanked {fields : List Field} {b : UInt8} (h : b ∈ StatText.blanked fields) :
    b = 32 ∨ ∃ f ∈ fields, b ∈ f.text := by
  obtain ⟨p, hp, hb⟩ := List.mem_flatMap.mp h
  obtain ⟨f, hf, rfl⟩ := List.mem_map.mp hp
  rcases List.mem_append.mp hb with hb | hb
  · exact .inl (List.mem_singleton.mp hb)
  · exact .inr ⟨f, hf, hb⟩

variable {t : StatText}

/-- A byte that stands in no field does not stand behind the name, but for a blank. -/
theorem not_mem_rest {b : UInt8} (hfield : ∀ f : Field, b ∉ f.text) (h32 : b ≠ 32) : b ∉ t.rest := by
  have hblanked (fields : List Field) : b ∉ StatText.blanked fields := by
    intro h
    rcases mem_blanked h with h | ⟨f, -, h⟩
    · exact h32 h
    · exact hfield f h
  intro h
  simp only [StatText.rest, StatText.front, List.mem_cons, List.mem_append] at h
  rcases h with h | (h | h) | h
  · exact h32 h
  · exact hfield t.state h
  · exact hblanked _ h
  · exact hblanked _ h

theorem Field.noNewline (f : Field) : (10 : UInt8) ∉ f.text := fun h => by cases f.noSpace 10 h

/-- The words of the fields come first. -/
theorem tokens_rest (t : StatText) : ∃ more,
    strtokAll (· == 32) [] (t.front ++ (StatText.blanked t.after ++ t.ending)) =
      t.state.text :: (t.before ++ [t.utime.field, t.stime.field]).map (fun f => f.text) ++ more := by
  have hword (f : Field) : ∀ b ∈ f.text, (b == 32) = false := fun b hb => by
    refine beq_eq_false_iff_ne.mpr ?_
    rintro rfl
    cases f.noSpace 32 hb
  have hspaced : ∀ p ∈ (t.before ++ [t.utime.field, t.stime.field]).map (fun f => (([32] : Bytes), f.text)),
      (p.1 ≠ [] ∧ ∀ b ∈ p.1, (b == 32) = true) ∧ p.2 ≠ [] ∧ ∀ b ∈ p.2, (b == 32) = false := by
    intro p hp
    obtain ⟨f, -, rfl⟩ := List.mem_map.mp hp
    exact ⟨⟨by simp, by simp⟩, f.nonempty, hword f⟩
  obtain ⟨f, fs, hf⟩ : ∃ f fs, t.after = f :: fs :=
    List.exists_cons_of_ne_nil fun hnil => by
      have := t.afterCount
      rw [hnil] at this
      cases this
  -- the blank in front of the first of the later fields ends the word of `stime`
  have hback : StatText.blanked t.after ++ t.ending =
      32 :: (f.text ++ (StatText.blanked fs ++ t.ending)) := by
    rw [hf]
    simp [StatText.blanked, spaced]
  refine ⟨strtokAll (· == 32) [] (f.text ++ (StatText.blanked fs ++ t.ending)), ?_⟩
  rw [hback, strtokAll_split rfl, StatText.front, strtokAll_append (hword t.state), StatText.blanked,
    strtokAll_spaced hspaced, List.nil_append, if_neg t.state.nonempty, List.map_map]
  rfl

/-! ## What is read -/

theorem line_noNewline (h : (10 : UInt8) ∉ t.name) : (10 : UInt8) ∉ t.line := by
  have hpid : (10 : UInt8) ∉ t.pid.text := t.pid.not_mem rfl
  have hrest : (10 : UInt8) ∉ t.rest := not_mem_rest Field.noNewline (by decide)
  simp [StatText.line, hpid, h, hrest]

theorem text_noNul (t : StatText) : (0 : UInt8) ∉ t.text := by
  have hpid : (0 : UInt8) ∉ t.pid.text := t.pid.not_mem rfl
  have hrest : (0 : UInt8) ∉ t.rest := not_mem_rest (fun f => f.noNul) (by decide)
  have hending : (0 : UInt8) ∉ t.ending := by
    rw [StatText.ending]
    split <;> decide
  simp [StatText.text, StatText.line, hpid, t.nameNoNul, hrest, hending]

/-- Without a line break in the name the first line is the whole text. -/
theorem first_line (h : (10 : UInt8) ∉ t.name) (hshort : t.text.length < 1023) :
    (fgetsAll 1024 [] t.text).head? = some t.text := by
  have hline := line_noNewline h
  rw [StatText.text, List.length_append] at hshort
  rw [StatText.text, StatText.ending]
  split
  · rw [fgetsAll_line hline _ (by simpa using by omega)]
    rfl
  · rw [List.append_nil, fgetsAll_short hline (by simp [StatText.line]) (by simpa using by omega)]
    rfl

/-- What stands up to the name, the name included. -/
def StatText.upTo (t : StatText) : Bytes := t.pid.text ++ 32 :: 40 :: t.name

theorem text_eq (t : StatText) : t.text = t.upTo ++ 41 :: (t.rest ++ t.ending) := by
  simp [StatText.text, StatText.line, StatText.upTo]

theorem opening (t : StatText) : strchr t.text 40 = some (t.pid.text.length + 1) := by
  have hdigits : (40 : UInt8) ∉ t.pid.text := t.pid.not_mem rfl
  have hpid : (40 : UInt8) ∉ t.pid.text ++ [32] := by simp [hdigits]
  have hsplit : t.text = (t.pid.text ++ [32]) ++ 40 :: (t.name ++ 41 :: (t.rest ++ t.ending)) := by
    simp [StatText.text, StatText.line]
  rw [hsplit, strchr_append hpid, List.length_append, List.length_singleton]

theorem closing (t : StatText) : strrchr t.text 41 = some t.upTo.length := by
  have hrest : (41 : UInt8) ∉ t.rest ++ t.ending := by
    have : (41 : UInt8) ∉ t.rest := not_mem_rest (fun f => f.noParen) (by decide)
    rw [List.mem_append, StatText.ending, not_or]
    refine ⟨this, ?_⟩
    split <;> decide
  rw [text_eq, strrchr_append hrest]

/-- The twelfth and the thirteenth word are the counters. -/
theorem tokens_taken (t : StatText) :
    let tokens := (strtokAll (· == 32) [] (t.front ++ (StatText.blanked t.after ++ t.ending))).take 64
    tokens[11]? = some t.utime.text ∧ tokens[12]? = some t.stime.text := by
  obtain ⟨more, hmore⟩ := tokens_rest t
  have hcount : (t.before.map fun f => f.text).length = 10 := by rw [List.length_map, t.beforeCount]
  have hsplit : strtokAll (· == 32) [] (t.front ++ (StatText.blanked t.after ++ t.ending)) =
      (t.state.text :: t.before.map fun f => f.text) ++ ([t.utime.text, t.stime.text] ++ more) := by
    rw [hmore]
    simp [Digits.field]
  have hlength : (t.state.text :: t.before.map fun f => f.text).length = 11 := by
    rw [List.length_cons, hcount]
  simp only [hsplit, List.getElem?_take_of_lt (by decide : 11 < 64),
    List.getElem?_take_of_lt (by decide : 12 < 64)]
  constructor
  · rw [List.getElem?_append_right (by omega), hlength]
    rfl
  · rw [List.getElem?_append_right (by omega), hlength]
    rfl

/-- The name is what stands between the first and the last parenthesis. -/
theorem readProcessStat_text (h : (10 : UInt8) ∉ t.name) (hshort : t.text.length < 1023) :
    readProcessStat (some t.text) = (parseUll t.utime.text).bind fun u =>
      (parseUll t.stime.text).map fun s => (CString.ofBytes 64 t.name, u + s) := by
  have hname : (t.text.take t.upTo.length).drop (t.pid.text.length + 1 + 1) = t.name := by
    rw [text_eq, List.take_left, StatText.upTo, add_assoc, ← List.drop_drop, List.drop_left]
    rfl
  have hbehind : t.text.drop (t.upTo.length + 1) = t.rest ++ t.ending := by
    rw [text_eq, ← List.drop_drop, List.drop_left, List.drop_one, List.tail_cons]
  have hfields : t.text.drop (t.upTo.length + 2) = t.front ++ (StatText.blanked t.after ++ t.ending) := by
    rw [← List.drop_drop (i := 1), hbehind, StatText.rest]
    simp
  have horder : ¬ t.upTo.length ≤ t.pid.text.length + 1 := by
    simp [StatText.upTo]
  have hbehindNe : ¬ t.text.drop (t.upTo.length + 1) = [] := by simp [hbehind, StatText.rest]
  rw [readProcessStat, Option.bind_some, first_line h hshort, Option.bind_some]
  simp only [cstr_of_noNul (text_noNul t), opening, closing, Option.bind_some, if_neg horder,
    if_neg hbehindNe, hname, hfields, (tokens_taken t).1, (tokens_taken t).2]

/-! ## A line break in the name -/

/-- Nothing of the line break that ends a line gets into the name. -/
theorem comm_noNewline {file first : Bytes} {comm : CString 64} {ticks : UInt64}
    (hfirst : (10 : UInt8) ∉ first) (h0 : (0 : UInt8) ∉ first)
    (hpiece : (fgetsAll 1024 [] file).head? = some (first ++ [10]))
    (hread : readProcessStat (some file) = some (comm, ticks)) : (10 : UInt8) ∉ comm.bytes := by
  have hcstr : cstr (first ++ [10]) = first ++ [10] := cstr_of_noNul (by simp [h0])
  rw [readProcessStat, Option.bind_some, hpiece, Option.bind_some] at hread
  simp only [hcstr] at hread
  obtain ⟨lpar, -, hread⟩ := Option.bind_eq_some_iff.mp hread
  obtain ⟨rpar, hrpar, hread⟩ := Option.bind_eq_some_iff.mp hread
  split at hread
  · cases hread
  split at hread
  · cases hread
  obtain ⟨utime, -, hread⟩ := Option.bind_eq_some_iff.mp hread
  obtain ⟨stime, -, hread⟩ := Option.bind_eq_some_iff.mp hread
  obtain ⟨u, -, hread⟩ := Option.bind_eq_some_iff.mp hread
  obtain ⟨s, -, hread⟩ := Option.map_eq_some_iff.mp hread
  obtain ⟨rfl, -⟩ := Prod.ext_iff.mp hread
  have hlt := strrchr_lt hrpar
  rw [List.length_append, List.length_singleton] at hlt
  have htake : (first ++ [10]).take rpar = first.take rpar :=
    List.take_append_of_le_length (by omega)
  intro hmem
  have hmem := (List.takeWhile_sublist _).subset (List.mem_of_mem_take hmem)
  rw [htake] at hmem
  exact hfirst (List.mem_of_mem_take (List.mem_of_mem_drop hmem))

/-- A line break in the name ends the line that is read. -/
theorem readProcessStat_broken (h : (10 : UInt8) ∈ t.name) (hshort : t.text.length < 1023)
    {comm : CString 64} {ticks : UInt64}
    (hread : readProcessStat (some t.text) = some (comm, ticks)) : comm.bytes ≠ t.name := by
  obtain ⟨before, after, hname, hbefore⟩ := List.eq_append_cons_of_mem h
  have hpid : (10 : UInt8) ∉ t.pid.text := t.pid.not_mem rfl
  have hsplit : t.text = (t.pid.text ++ 32 :: 40 :: before) ++ 10 :: (after ++ 41 :: (t.rest ++ t.ending)) := by
    simp [StatText.text, StatText.line, hname]
  have hfirst : (10 : UInt8) ∉ t.pid.text ++ 32 :: 40 :: before := by simp [hpid, hbefore]
  have h0 : (0 : UInt8) ∉ t.pid.text ++ 32 :: 40 :: before := fun hzero =>
    text_noNul t (by rw [hsplit]; exact List.mem_append_left _ hzero)
  have hpiece : (fgetsAll 1024 [] t.text).head? = some (t.pid.text ++ 32 :: 40 :: before ++ [10]) := by
    rw [hsplit, List.length_append, List.length_cons] at hshort
    rw [hsplit, fgetsAll_line hfirst _ (by rw [List.length_nil]; omega)]
    rfl
  intro hcomm
  refine comm_noNewline hfirst h0 hpiece hread ?_
  rw [hcomm]
  exact h

/-! ## Names and counters -/

theorem Digits.parsed (n : Digits) :
    parseUll n.text = if n.value < 2 ^ 64 then some (UInt64.ofNat n.value) else none := by
  have hscan : ParseUll.Scan n.text [] n.text [] :=
    ⟨⟨[], by simp, by simp⟩, .inl rfl, n.nonempty, n.digits, by simp⟩
  rw [hscan.parseUll, if_neg (by decide : ¬ ([] : Bytes) = [45])]
  exact if_congr (and_iff_left (by simp)) rfl rfl

/-- `read_process_stat` returns 0 with the name and the sum of the counters. -/
def Recovered (t : StatText) : Prop :=
  ∃ comm ticks, readProcessStat (some t.text) = some (comm, ticks) ∧ comm.bytes = t.name ∧
    ticks.toNat = (t.utime.value + t.stime.value) % 2 ^ 64

/-- **A process is read under its own name** with any name that has no line break
in it, as long as its counters have 64 bits. -/
theorem process_stat_recovered_iff (t : StatText) (hshort : t.text.length < 1023) :
    Recovered t ↔ (10 : UInt8) ∉ t.name ∧ t.utime.value < 2 ^ 64 ∧ t.stime.value < 2 ^ 64 := by
  constructor
  · rintro ⟨comm, ticks, hread, hcomm, -⟩
    have hname : (10 : UInt8) ∉ t.name := fun h => readProcessStat_broken h hshort hread hcomm
    rw [readProcessStat_text hname hshort] at hread
    obtain ⟨u, hu, hread⟩ := Option.bind_eq_some_iff.mp hread
    obtain ⟨s, hs, -⟩ := Option.map_eq_some_iff.mp hread
    rw [Digits.parsed, Option.ite_none_right_eq_some] at hu hs
    exact ⟨hname, hu.1, hs.1⟩
  · rintro ⟨hname, hutime, hstime⟩
    have hfits : t.name.length < 64 := Nat.lt_of_le_of_lt t.named.2 (by decide)
    refine ⟨CString.ofBytes 64 t.name, UInt64.ofNat t.utime.value + UInt64.ofNat t.stime.value, ?_,
      CString.ofBytes_bytes t.nameNoNul hfits, ?_⟩
    · rw [readProcessStat_text hname hshort, Digits.parsed, Digits.parsed, if_pos hutime,
        if_pos hstime]
      rfl
    · rw [← UInt64.ofNat_add, UInt64.toNat_ofNat']

def number (n : Nat) : Digits := ⟨decimal n, decimal_ne_nil n, fun _ hb => isDigit_of_mem_decimal hb⟩

/-- Process 42 with 7 and 5 ticks, and the other fields 0. -/
def sleeping (name : Bytes) (named : 1 ≤ name.length ∧ name.length ≤ 15)
    (nameNoNul : (0 : UInt8) ∉ name) : StatText where
  pid := number 42
  name := name
  named := named
  nameNoNul := nameNoNul
  state := ⟨⟨ascii "S", by decide, by decide, by decide⟩, by decide⟩
  before := List.replicate 10 (number 0).field
  beforeCount := rfl
  utime := number 7
  stime := number 5
  after := List.replicate 37 (number 0).field
  afterCount := rfl
  newline := true

/-- A name with blanks and parentheses. -/
theorem process_stat_recovered_example : Recovered (sleeping (ascii "a) S 1 (b") (by decide) (by decide)) :=
  (process_stat_recovered_iff _ (by decide +kernel)).mpr (by decide +kernel)

/-- Of a process with the name `a`, newline, `b` the line that is read ends
before the closing parenthesis: it is not in the list. -/
theorem newline_name_hidden :
    readProcessStat (some (sleeping [97, 10, 98] (by decide) (by decide)).text) = none ∧
      ¬ Recovered (sleeping [97, 10, 98] (by decide) (by decide)) := by
  have hread : readProcessStat (some (sleeping [97, 10, 98] (by decide) (by decide)).text) = none := by
    decide +kernel
  refine ⟨hread, ?_⟩
  rintro ⟨comm, ticks, h, -⟩
  rw [hread] at h
  cases h

end Syswatch.ProcessStatText
