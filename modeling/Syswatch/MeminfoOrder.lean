import Syswatch.Memory
import Syswatch.Lib.Words

/-! # The lines of `/proc/meminfo` in any order

Every line stores one field or none. Lines with different keys store different
fields, so that their order does not matter and other lines could as well be
left out. -/

namespace Syswatch.MeminfoOrder
open Lib.CText Lib.Words Lib.Scanf Memory

/-- The text in front of the first colon. -/
def keyOf (line : Bytes) : Option Bytes := cutAt 58 (cstr line)

/-- A line with one of the keys. -/
def Recognised (line : Bytes) : Prop := ∃ key ∈ keyOf line, key ∈ keys

instance (line : Bytes) : Decidable (Recognised line) :=
  inferInstanceAs (Decidable (∃ key ∈ keyOf line, key ∈ keys))

/-- `"Key: 123 kB"`. -/
def entryLine (key : Bytes) (gap : Blanks) (n : Numeral) : Bytes :=
  key ++ 58 :: (gap.text ++ (n.text ++ ascii " kB"))

/-- The text of the lines; the last one need not end. -/
def meminfoText (lines : List Bytes) : Bytes := [10].intercalate lines

/-- Lines that fit the buffer. -/
def Short (lines : List Bytes) : Prop := ∀ l ∈ lines, (10 : UInt8) ∉ l ∧ l.length < 255

instance (lines : List Bytes) : Decidable (Short lines) :=
  inferInstanceAs (Decidable (∀ l ∈ lines, _))

/-- Every key is on at most one line, and that line is an entry. -/
structure Meminfo (lines : List Bytes) : Prop where
  short : Short lines
  entry : ∀ l ∈ lines, ∀ key ∈ keyOf l, key ∈ keys → ∃ gap n, l = entryLine key gap n
  once : ∀ key ∈ keys, lines.countP (fun l => keyOf l = some key) ≤ 1

/-! ## One line -/

theorem readLine_cases (line : Bytes) :
    (∀ out, readLine out line = out) ∨
      ∃ key valueKb, keyOf line = some key ∧
        ∀ out, readLine out line = storeKey out key (valueKb * 1024) := by
  have hitems : (items meminfoFormat (cstr line) = [] ∨
      ∃ key, items meminfoFormat (cstr line) = [.text key]) ∨
      ∃ key v, items meminfoFormat (cstr line) = [.text key, .num v] ∧ keyOf line = some key := by
    rw [meminfoFormat, items]
    split
    · exact .inl (.inl rfl)
    · rw [items]
      split
      · rename_i hcolon
        obtain ⟨hwhole, hmem⟩ := upTo_whole hcolon
        rw [items, items]
        split
        · rw [items_of_no_conversion rfl, hwhole]
          exact .inr ⟨_, _, rfl, if_pos hmem⟩
        · exact .inl (.inr ⟨_, rfl⟩)
      · exact .inl (.inr ⟨_, rfl⟩)
  rcases hitems with (hnone | ⟨key, hone⟩) | ⟨key, v, htwo, hkey⟩
  · exact .inl fun out => by rw [readLine, hnone]
  · exact .inl fun out => by rw [readLine, hone]
  · exact .inr ⟨key, v, hkey, fun out => by rw [readLine, htwo]⟩

/-- A line without a key stores nothing. -/
theorem readLine_other {line : Bytes} (h : ¬ Recognised line) (out : MemoryStats) :
    readLine out line = out := by
  rcases readLine_cases line with hsame | ⟨key, v, hkey, hstore⟩
  · exact hsame out
  · rw [hstore, storeKey_other fun hmem => h ⟨key, hkey, hmem⟩]

theorem key_facts : ∀ key ∈ keys, key ≠ [] ∧ (58 : UInt8) ∉ key ∧ (0 : UInt8) ∉ key ∧ key.length ≤ 63 := by
  decide

theorem entryLine_noNul {key : Bytes} (hkey : key ∈ keys) (gap : Blanks) (n : Numeral) :
    (0 : UInt8) ∉ entryLine key gap n := by
  obtain ⟨-, -, hnul, -⟩ := key_facts key hkey
  simp only [entryLine, List.mem_append, List.mem_cons, not_or]
  exact ⟨hnul, by decide, gap.noNul, n.word.noNul, by decide⟩

theorem keyOf_entryLine {key : Bytes} (hkey : key ∈ keys) (gap : Blanks) (n : Numeral) :
    keyOf (entryLine key gap n) = some key := by
  rw [keyOf, cstr_of_noNul (entryLine_noNul hkey gap n)]
  exact cutAt_append (key_facts key hkey).2.1 _

/-- An entry stores its value, whether its line ends or not. -/
theorem readLine_entry {key : Bytes} (hkey : key ∈ keys) (gap : Blanks) (n : Numeral) (out : MemoryStats)
    {ending : Bytes} (hending : ending = [] ∨ ending = [10]) :
    readLine out (entryLine key gap n ++ ending) = storeKey out key (n.value * 1024) := by
  obtain ⟨hne, hcolon, -, hlen⟩ := key_facts key hkey
  have hcstr : cstr (entryLine key gap n ++ ending) = entryLine key gap n ++ ending := by
    apply cstr_of_noNul
    rw [List.mem_append, not_or]
    refine ⟨entryLine_noNul hkey gap n, ?_⟩
    rcases hending with rfl | rfl <;> decide
  have hitems : items meminfoFormat (entryLine key gap n ++ ending) = [.text key, .num n.value] := by
    rw [meminfoFormat, entryLine, List.append_assoc, List.cons_append, items_upTo hne hcolon hlen,
      List.append_assoc, List.append_assoc, items_number gap.isSpace n.nonempty n.digits n.small,
      items_of_no_conversion rfl]
    · rfl
    · rintro b ⟨⟩
      rfl
  rw [readLine, hcstr, hitems]

theorem takeWhile_append_of_mem {p : UInt8 → Bool} {s : Bytes} {b : UInt8} (hb : b ∈ s)
    (hstop : p b = false) (t : Bytes) : (s ++ t).takeWhile p = s.takeWhile p := by
  rw [List.takeWhile_append, if_neg]
  intro hlen
  have hall := List.takeWhile_eq_self_iff.mp ((List.takeWhile_sublist p).eq_of_length hlen)
  rw [hall b hb] at hstop
  cases hstop

theorem keyOf_newline (line : Bytes) : keyOf (line ++ [10]) = keyOf line := by
  by_cases hnul : (0 : UInt8) ∈ line
  · have hsame : cstr (line ++ [10]) = cstr line := takeWhile_append_of_mem hnul rfl _
    rw [keyOf, keyOf, hsame]
  · rw [keyOf, keyOf, cstr_of_noNul (by simpa using hnul), cstr_of_noNul hnul, cutAt, cutAt]
    by_cases hcolon : (58 : UInt8) ∈ line
    · rw [if_pos (List.mem_append_left _ hcolon), if_pos hcolon, takeWhile_append_of_mem hcolon rfl]
    · rw [if_neg hcolon, if_neg (by simpa using hcolon)]

/-- The field of an entry, and that it stores this field whether its line ends or not. -/
theorem Meminfo.field {lines : List Bytes} (h : Meminfo lines) {l : Bytes} (hl : l ∈ lines)
    (hr : Recognised l) : ∃ f ∈ fields, ∃ v, keyOf l = some f.key ∧
      ∀ out, readLine out l = f.set out v ∧ readLine out (l ++ [10]) = f.set out v := by
  obtain ⟨key, hkey, hmem⟩ := hr
  obtain ⟨gap, n, hline⟩ := h.entry l hl key hkey hmem
  obtain ⟨f, hf, rfl⟩ := List.mem_map.mp hmem
  refine ⟨f, hf, n.value * 1024, hkey, fun out => ⟨?_, ?_⟩⟩
  · have := readLine_entry hmem gap n out (.inl rfl)
    rwa [List.append_nil, ← hline, storeKey_field f hf] at this
  · have := readLine_entry hmem gap n out (.inr rfl)
    rwa [← hline, storeKey_field f hf] at this

theorem Meminfo.readLine_newline {lines : List Bytes} (h : Meminfo lines) {l : Bytes} (hl : l ∈ lines)
    (out : MemoryStats) : readLine out (l ++ [10]) = readLine out l := by
  by_cases hr : Recognised l
  · obtain ⟨f, -, v, -, hstore⟩ := h.field hl hr
    rw [(hstore out).1, (hstore out).2]
  · have hother : ¬ Recognised (l ++ [10]) := by rwa [Recognised, keyOf_newline]
    rw [readLine_other hr, readLine_other hother]

/-! ## All lines -/

/-- A loop over the results of `fgets` is one over the lines. -/
theorem foldl_fgetsAll {σ : Type} {f : σ → Bytes → σ} {cap : Nat} {lines : List Bytes}
    (hshort : ∀ l ∈ lines, (10 : UInt8) ∉ l ∧ l.length + 1 < cap)
    (hnewline : ∀ l ∈ lines, ∀ s, f s (l ++ [10]) = f s l) (hempty : ∀ s, f s [] = s) (s : σ) :
    (fgetsAll cap [] ([10].intercalate lines)).foldl f s = lines.foldl f s := by
  induction lines generalizing s with
  | nil => rfl
  | cons l rest ih =>
    obtain ⟨hl, hlen⟩ := hshort l (by simp)
    cases rest with
    | nil =>
      rw [List.intercalate_singleton, List.foldl_cons, List.foldl_nil]
      by_cases hnil : l = []
      · rw [hnil, hempty]
        rfl
      · rw [fgetsAll_short hl (by simpa using hnil) (by simp; omega)]
        rfl
    | cons l' rest =>
      have htext : [10].intercalate (l :: l' :: rest) = l ++ 10 :: [10].intercalate (l' :: rest) := by
        simp [List.intercalate_cons_cons]
      rw [htext, fgetsAll_line hl _ (by simpa using hlen), List.foldl_cons, List.foldl_cons,
        List.nil_append, hnewline l (by simp),
        ih (fun x hx => hshort x (by simp [hx])) fun x hx => hnewline x (by simp [hx])]

theorem foldl_filter_recognised (lines : List Bytes) (out : MemoryStats) :
    lines.foldl readLine out = (lines.filter fun l => Recognised l).foldl readLine out := by
  induction lines generalizing out with
  | nil => rfl
  | cons l rest ih =>
    rw [List.foldl_cons, ih]
    by_cases hr : Recognised l
    · rw [List.filter_cons_of_pos (by simpa using hr), List.foldl_cons]
    · rw [List.filter_cons_of_neg (by simpa using hr), readLine_other hr]

theorem readLine_nil (out : MemoryStats) : readLine out [] = out := rfl

theorem memoryReadStats_eq {lines : List Bytes} (h : Meminfo lines) :
    memoryReadStats (some (meminfoText lines)) =
      some (storeUsed ((lines.filter fun l => Recognised l).foldl readLine noStats)) := by
  rw [memoryReadStats, Option.map_some, meminfoText,
    foldl_fgetsAll (fun l hl => ⟨(h.short l hl).1, by have := (h.short l hl).2; omega⟩)
      (fun l hl out => h.readLine_newline hl out) readLine_nil, foldl_filter_recognised]

/-- One line for a key. -/
theorem Meminfo.eq_of_key {lines : List Bytes} (h : Meminfo lines) {l l' : Bytes} (hl : l ∈ lines)
    (hl' : l' ∈ lines) {key : Bytes} (hmem : key ∈ keys) (hkey : keyOf l = some key)
    (hkey' : keyOf l' = some key) : l = l' := by
  have honce := h.once key hmem
  rw [List.countP_eq_length_filter] at honce
  have hin : l ∈ lines.filter fun l => keyOf l = some key := List.mem_filter.mpr ⟨hl, by simpa using hkey⟩
  have hin' : l' ∈ lines.filter fun l => keyOf l = some key :=
    List.mem_filter.mpr ⟨hl', by simpa using hkey'⟩
  cases hf : lines.filter fun l => keyOf l = some key with
  | nil =>
    rw [hf] at hin
    cases hin
  | cons x rest =>
    rw [hf, List.length_cons] at honce
    rw [hf, List.length_eq_zero_iff.mp (by omega : rest.length = 0), List.mem_singleton] at hin hin'
    rw [hin, hin']

/-- Two entries store in either order. -/
theorem Meminfo.readLine_comm {lines : List Bytes} (h : Meminfo lines) {x y : Bytes} (hx : x ∈ lines)
    (hy : y ∈ lines) (hrx : Recognised x) (hry : Recognised y) (out : MemoryStats) :
    readLine (readLine out x) y = readLine (readLine out y) x := by
  obtain ⟨f, hf, v, hkey, hstore⟩ := h.field hx hrx
  obtain ⟨g, hg, w, hkey', hstore'⟩ := h.field hy hry
  by_cases hne : f.key = g.key
  · rw [h.eq_of_key hx hy (List.mem_map_of_mem hf) hkey (hne ▸ hkey')]
  · rw [(hstore _).1, (hstore' _).1, (hstore' _).1, (hstore _).1]
    exact (set_comm f hf g hg hne out v w).symm

theorem Meminfo.foldl_perm {lines : List Bytes} (h : Meminfo lines) {entries : List Bytes}
    (hperm : (lines.filter fun l => Recognised l).Perm entries) (out : MemoryStats) :
    (lines.filter fun l => Recognised l).foldl readLine out = entries.foldl readLine out := by
  apply hperm.foldl_eq'
  intro x hx y hy out
  obtain ⟨hx, hrx⟩ := List.mem_filter.mp hx
  obtain ⟨hy, hry⟩ := List.mem_filter.mp hy
  exact h.readLine_comm hx hy (by simpa using hrx) (by simpa using hry) out

/-- A field that no line is for stays as it is. -/
theorem Meminfo.get_absent {lines : List Bytes} (h : Meminfo lines) {f : Field} (hf : f ∈ fields)
    {entries : List Bytes} (hentries : ∀ l ∈ entries, l ∈ lines ∧ Recognised l ∧ keyOf l ≠ some f.key)
    (out : MemoryStats) : f.get (entries.foldl readLine out) = f.get out := by
  induction entries generalizing out with
  | nil => rfl
  | cons l rest ih =>
    obtain ⟨hl, hr, hkey⟩ := hentries l (by simp)
    obtain ⟨g, hg, v, hkey', hstore⟩ := h.field hl hr
    have hne : f.key ≠ g.key := fun he => hkey (he ▸ hkey')
    rw [List.foldl_cons, ih (fun x hx => hentries x (by simp [hx])), (hstore out).1,
      get_set_ne f hf g hg hne]

/-- A field holds the value of its line: it may as well be the last one. -/
theorem Meminfo.get_present {lines : List Bytes} (h : Meminfo lines) {f : Field} (hf : f ∈ fields)
    {gap : Blanks} {n : Numeral} (hl : entryLine f.key gap n ∈ lines) (out : MemoryStats) :
    f.get ((lines.filter fun l => Recognised l).foldl readLine out) = n.value * 1024 := by
  have hmem : f.key ∈ keys := List.mem_map_of_mem hf
  have hin : entryLine f.key gap n ∈ lines.filter fun l => Recognised l :=
    List.mem_filter.mpr ⟨hl, by simpa using ⟨f.key, keyOf_entryLine hmem gap n, hmem⟩⟩
  have hlast := (List.perm_cons_erase hin).trans (List.perm_append_singleton _ _).symm
  have hread := readLine_entry hmem gap n
    (((lines.filter fun l => Recognised l).erase (entryLine f.key gap n)).foldl readLine out) (.inl rfl)
  rw [List.append_nil] at hread
  rw [h.foldl_perm hlast, List.foldl_append, List.foldl_cons, List.foldl_nil, hread,
    storeKey_field f hf, get_set f hf]

theorem Meminfo.of_perm {lines lines' : List Bytes} (h : Meminfo lines) (hshort : Short lines')
    (hperm : (lines'.filter fun l => Recognised l).Perm (lines.filter fun l => Recognised l)) :
    Meminfo lines' := by
  refine ⟨hshort, ?_, ?_⟩
  · intro l hl key hkey hmem
    have hin : l ∈ lines'.filter fun l => Recognised l :=
      List.mem_filter.mpr ⟨hl, by simpa using ⟨key, hkey, hmem⟩⟩
    exact h.entry l (List.mem_of_mem_filter (hperm.mem_iff.mp hin)) key hkey hmem
  · intro key hmem
    have hcount (lines : List Bytes) : lines.countP (fun l => keyOf l = some key) =
        (lines.filter fun l => Recognised l).countP fun l => keyOf l = some key := by
      rw [List.countP_filter]
      apply List.countP_congr
      intro l _
      simp only [decide_eq_true_eq, Bool.and_eq_true]
      exact ⟨fun hkey => ⟨hkey, key, hkey, hmem⟩, fun hboth => hboth.1⟩
    rw [hcount, hperm.countP_eq, ← hcount]
    exact h.once key hmem

/-- **The order of the lines does not matter**, nor do the lines with other keys:
each field is 1024 times the number of its line, or 0, and what is in use is
never more than the total. -/
theorem memory_read_stats_lines :
    (∀ text, ∃ stats, memoryReadStats (some text) = some stats ∧
      stats.memUsed.toNat = stats.memTotal.toNat - stats.memAvailable.toNat ∧
      stats.swapUsed.toNat = stats.swapTotal.toNat - stats.swapFree.toNat ∧
      stats.memUsed ≤ stats.memTotal ∧ stats.swapUsed ≤ stats.swapTotal) ∧
    ∀ lines, Meminfo lines → ∃ stats, memoryReadStats (some (meminfoText lines)) = some stats ∧
      (∀ f ∈ fields,
        (∀ gap n, entryLine f.key gap n ∈ lines → f.get stats = n.value * 1024) ∧
        ((∀ l ∈ lines, keyOf l ≠ some f.key) → f.get stats = 0)) ∧
      ∀ lines', Short lines' →
        (lines'.filter fun l => Recognised l).Perm (lines.filter fun l => Recognised l) →
        memoryReadStats (some (meminfoText lines')) = some stats := by
  constructor
  · intro text
    obtain ⟨stats, hstats, hmem, hswap⟩ := memoryReadStats_used text
    refine ⟨stats, hstats, hmem, hswap, ?_, ?_⟩
    · rw [UInt64.le_iff_toNat_le, hmem]
      omega
    · rw [UInt64.le_iff_toNat_le, hswap]
      omega
  · intro lines h
    refine ⟨_, memoryReadStats_eq h, ?_, ?_⟩
    · intro f hf
      rw [storeUsed_get _ f hf]
      refine ⟨fun gap n hl => h.get_present hf hl _, fun habsent => ?_⟩
      rw [h.get_absent hf]
      · exact noStats_get f hf
      · intro l hl
        obtain ⟨hl, hr⟩ := List.mem_filter.mp hl
        exact ⟨hl, by simpa using hr, habsent l hl⟩
    · intro lines' hshort hperm
      have h' := h.of_perm hshort hperm
      rw [memoryReadStats_eq h', h'.foldl_perm hperm]

/-- Two of the keys and another line, read from either end. -/
theorem memory_read_stats_lines_example :
    let gap : Blanks := ⟨[32, 32], by decide⟩
    let available : Numeral := ⟨ascii "5", by decide, by decide, by decide⟩
    let total : Numeral := ⟨ascii "16", by decide, by decide, by decide⟩
    let lines : List Bytes := [entryLine (ascii "MemAvailable") gap available,
      ascii "HugePages_Total: 0", entryLine (ascii "MemTotal") gap total]
    memoryReadStats (some (meminfoText lines)) = memoryReadStats (some (meminfoText lines.reverse)) := by
  intro gap available total lines
  have hform : Meminfo lines := by
    refine ⟨by decide, ?_, by decide⟩
    intro l hl key hkey hmem
    simp only [lines, List.mem_cons, List.not_mem_nil, or_false] at hl
    rcases hl with rfl | rfl | rfl
    · cases hkey
      exact ⟨_, _, rfl⟩
    · cases hkey
      exact absurd hmem (by decide)
    · cases hkey
      exact ⟨_, _, rfl⟩
  obtain ⟨stats, hstats, -, hsame⟩ := memory_read_stats_lines.2 lines hform
  rw [hstats, hsame lines.reverse (by decide) ((List.reverse_perm lines).filter _)]

end Syswatch.MeminfoOrder
