import Syswatch.Collector
import Syswatch.MeminfoOrder
import Syswatch.ProcNetDev
import Syswatch.StatLocals

/-! # The four files as the kernel prints them

What the kernel counts, the texts of `/proc/stat`, `/proc/meminfo`, `/proc/diskstats`
and `/proc/net/dev` in which it shows this, and that the readers of the collectors get
it back: nothing is left in them of what their variables held before. -/

namespace Syswatch.ProcFiles
open Lib.CText Lib.Words Lib.Scanf ProcStat StatLocals

/-! ## `/proc/stat` -/

/-- A line of counters, the last two of which are not read. -/
structure StatLine where
  times : CpuTimes
  guest : UInt64
  guestNice : UInt64

/-- The counters that are read, in their order. -/
def StatLine.read (l : StatLine) : List UInt64 :=
  [l.times.user, l.times.nice, l.times.system, l.times.idle, l.times.iowait, l.times.irq, l.times.softirq,
    l.times.steal]

/-- `" %llu"` for each counter. -/
def counterText (ns : List UInt64) : Bytes := ns.flatMap fun n => 32 :: decimal n.toNat

def StatLine.text (l : StatLine) : Bytes := counterText (l.read ++ [l.guest, l.guestNice])

def totalLine (l : StatLine) : Bytes := ascii "cpu " ++ l.text

def coreLine (core : UInt32 × StatLine) : Bytes := ascii "cpu" ++ (decimal core.1.toNat ++ core.2.text)

/-- All processors, each that is online, and from the interrupts on the rest. -/
def statText (total : StatLine) (cores : List (UInt32 × StatLine)) (rest : Bytes) : Bytes :=
  (totalLine total :: cores.map coreLine).flatMap (· ++ [10]) ++ (ascii "intr " ++ rest)

/-- `" %llu"` as often as there are numbers. -/
def counterFormat (ns : List UInt64) : List Part := ns.flatMap fun _ => [.blanks, .ull]

theorem counterText_head {ns : List UInt64} {tail : Bytes} (h : ∀ b ∈ tail.head?, isDigit b = false) :
    ∀ b ∈ (counterText ns ++ tail).head?, isDigit b = false := by
  cases ns with
  | nil => exact h
  | cons n ns =>
    rintro b ⟨⟩
    decide

theorem newline_head : ∀ b ∈ ([10] : Bytes).head?, isDigit b = false := by
  rintro b ⟨⟩
  decide

/-- Printed counters are read back. -/
theorem items_counters (ns : List UInt64) {tail : Bytes} (h : ∀ b ∈ tail.head?, isDigit b = false) :
    items (counterFormat ns) (counterText ns ++ tail) = ns.map .num := by
  induction ns with
  | nil => rfl
  | cons n ns ih =>
    have hnumber := @items_number [32] (decimal n.toNat) _ (by decide) (decimal_ne_nil _)
      (fun b hb => isDigit_of_mem_decimal hb) (by rw [digitsValue_decimal]; exact n.toNat_lt)
      (@counterText_head ns _ h) (counterFormat ns)
    rw [digitsValue_decimal, ih, UInt64.ofNat_toNat] at hnumber
    simpa [counterFormat, counterText] using hnumber

theorem items_literal (s : Bytes) (fmt : List Part) (rest : Bytes) :
    items (literal s ++ fmt) (s ++ rest) = items fmt rest := by
  induction s with
  | nil => rfl
  | cons c s ih =>
    rw [literal, List.map_cons, List.cons_append, List.cons_append, items, if_pos List.head?_cons]
    exact ih

theorem numbers_read (l : StatLine) : numbers countersFormat (l.text ++ [10]) = l.read := by
  have htail : ∀ b ∈ (counterText [l.guest, l.guestNice] ++ [10]).head?, isDigit b = false :=
    counterText_head newline_head
  have hitems := items_counters l.read htail
  have htext : l.text ++ [10] = counterText l.read ++ (counterText [l.guest, l.guestNice] ++ [10]) := by
    rw [StatLine.text, counterText, List.flatMap_append, List.append_assoc]
    rfl
  rw [numbers, htext]
  change (items (counterFormat l.read) _).filterMap _ = _
  rw [hitems, List.filterMap_map]
  exact List.filterMap_some

theorem store_read (t : CpuTimes) (l : StatLine) : store t l.read = l.times := rfl

theorem numbers_total (l : StatLine) : numbers cpuFormat (totalLine l ++ [10]) = l.read := by
  have hblank : items countersFormat (32 :: (l.text ++ [10])) = items countersFormat (l.text ++ [10]) := rfl
  rw [← numbers_read l, numbers, numbers, cpuFormat, totalLine]
  change (items (literal (ascii "cpu") ++ countersFormat) (ascii "cpu" ++ 32 :: (l.text ++ [10]))).filterMap _ = _
  rw [items_literal, hblank]

theorem numbers_core (core : UInt32 × StatLine) : numbers coreFormat (coreLine core ++ [10]) = core.2.read := by
  have hint : core.1.toNat < 2 ^ 63 := core.1.toNat_lt.trans (by decide)
  have hskip : strtol (decimal core.1.toNat ++ (core.2.text ++ [10])) =
      ⟨core.1.toNat, core.2.text ++ [10], true, false⟩ := by
    have hhead : ∀ b ∈ (core.2.text ++ [10]).head?, isDigit b = false := counterText_head newline_head
    rw [strtol_append (by rw [strtol_decimal hint]) hhead, strtol_decimal hint]
    rfl
  rw [← numbers_read core.2, numbers, numbers, coreFormat, coreLine, List.append_assoc, List.append_assoc,
    items_literal, items, hskip, if_pos rfl]

theorem counterText_byte (ns : List UInt64) : ∀ b ∈ counterText ns, b = 32 ∨ isDigit b = true := by
  intro b hb
  obtain ⟨n, -, hb⟩ := List.mem_flatMap.mp hb
  rcases List.mem_cons.mp hb with rfl | hb
  · exact .inl rfl
  · exact .inr (isDigit_of_mem_decimal hb)

/-- What is no letter of `cpu`, no blank and no digit is not in the lines. -/
theorem lines_noByte {b : UInt8} (hb : b ≠ 32 ∧ isDigit b = false ∧ b ∉ ascii "cpu") (l : StatLine)
    (core : UInt32 × StatLine) : b ∉ totalLine l ∧ b ∉ coreLine core := by
  obtain ⟨hblank, hdigit, hcpu⟩ := hb
  have htext (l : StatLine) : b ∉ l.text := by
    intro h
    rcases counterText_byte _ b h with h | h
    · exact hblank h
    · rw [hdigit] at h
      cases h
  have hnumber : b ∉ decimal core.1.toNat := fun h => by
    rw [isDigit_of_mem_decimal h] at hdigit
    cases hdigit
  have hname : b ∉ ascii "cpu " := by
    rw [show ascii "cpu " = ascii "cpu" ++ [32] from rfl, List.mem_append, not_or, List.mem_singleton]
    exact ⟨hcpu, hblank⟩
  simp only [totalLine, coreLine, List.mem_append, not_or]
  exact ⟨⟨hname, htext l⟩, hcpu, hnumber, htext core.2⟩

theorem counterText_length (ns : List UInt64) : (counterText ns).length ≤ 21 * ns.length := by
  induction ns with
  | nil => exact le_rfl
  | cons n ns ih =>
    have hn : (decimal n.toNat).length ≤ 20 :=
      (decimal_length_le_iff (by decide)).mpr (n.toNat_lt.trans (by decide))
    rw [counterText] at ih ⊢
    rw [List.flatMap_cons, List.length_append, List.length_cons, List.length_cons, Nat.mul_succ]
    omega

theorem lines_length (l : StatLine) (core : UInt32 × StatLine) :
    (totalLine l).length ≤ 250 ∧ (coreLine core).length ≤ 250 := by
  have htext (l : StatLine) : l.text.length ≤ 210 := counterText_length _
  have hn : (decimal core.1.toNat).length ≤ 10 :=
    (decimal_length_le_iff (by decide)).mpr (core.1.toNat_lt.trans (by decide))
  have h₁ := htext l
  have h₂ := htext core.2
  have h₃ : (ascii "cpu ").length = 4 := rfl
  have h₄ : (ascii "cpu").length = 3 := rfl
  simp only [totalLine, coreLine, List.length_append]
  omega

/-- A line in front of anything is returned with its newline. -/
theorem fgetsAll_front {cap : Nat} {lines : List Bytes} (rest : Bytes)
    (h : ∀ l ∈ lines, (10 : UInt8) ∉ l ∧ l.length + 1 < cap) :
    fgetsAll cap [] (lines.flatMap (· ++ [10]) ++ rest) = lines.map (· ++ [10]) ++ fgetsAll cap [] rest := by
  induction lines with
  | nil => rfl
  | cons l lines ih =>
    rw [List.forall_mem_cons] at h
    rw [List.flatMap_cons, List.append_assoc, List.append_assoc, List.singleton_append,
      fgetsAll_line h.1.1 _ (by simpa using h.1.2), ih h.2]
    rfl

/-- What has been read of a line starts it. -/
theorem fgetsAll_begun {cap : Nat} {acc : Bytes} (hacc : acc ≠ []) (s : Bytes) :
    ∃ tail more, fgetsAll cap acc s = (acc ++ tail) :: more := by
  induction s generalizing acc with
  | nil => exact ⟨[], [], by rw [fgetsAll, if_neg hacc, List.append_nil]⟩
  | cons c s ih =>
    rw [fgetsAll]
    split_ifs with hend
    · exact ⟨[c], _, rfl⟩
    · obtain ⟨tail, more, htail⟩ := ih (List.append_ne_nil_of_left_ne_nil hacc [c])
      exact ⟨c :: tail, more, by rw [htail, List.append_assoc]; rfl⟩

theorem cstr_line {l : Bytes} (h : (0 : UInt8) ∉ l) : cstr (l ++ [10]) = l ++ [10] := by
  refine cstr_of_noNul ?_
  rw [List.mem_append, not_or]
  exact ⟨h, by decide⟩

/-- The lines in front of the interrupts. -/
theorem beforeIntr_statText (total : StatLine) (cores : List (UInt32 × StatLine)) (rest : Bytes) :
    beforeIntr (fgetsAll 512 [] (statText total cores rest)) =
      (totalLine total ++ [10]) :: cores.map fun core => coreLine core ++ [10] := by
  have hlines : ∀ l ∈ totalLine total :: cores.map coreLine, (10 : UInt8) ∉ l ∧ l.length + 1 < 512 := by
    rw [List.forall_mem_cons, List.forall_mem_map]
    refine ⟨⟨(lines_noByte (by decide) total (0, total)).1, ?_⟩, fun core _ =>
      ⟨(lines_noByte (by decide) total core).2, ?_⟩⟩
    · have := (lines_length total (0, total)).1
      omega
    · have := (lines_length total core).2
      omega
  have hkept : ∀ l ∈ (totalLine total :: cores.map coreLine).map (· ++ [10]),
      (!decide (ascii "intr" <+: cstr l)) = true := by
    simp only [List.map_cons, List.map_map, List.forall_mem_cons, List.forall_mem_map, Bool.not_eq_true',
      decide_eq_false_iff_not, Function.comp_apply]
    constructor
    · rw [cstr_line (lines_noByte (by decide) total (0, total)).1]
      exact not_intr_of_cpu ⟨_, by rw [totalLine, List.append_assoc]; rfl⟩
    · intro core _
      rw [cstr_line (lines_noByte (by decide) total core).2]
      exact not_intr_of_cpu ⟨_, by rw [coreLine, List.append_assoc]⟩
  obtain ⟨tail, more, htail⟩ := @fgetsAll_begun 512 (ascii "intr ") (by decide) rest
  have hintr : fgetsAll 512 [] (ascii "intr " ++ rest) = (ascii "intr " ++ tail) :: more := by
    rw [← htail]
    rfl
  have hstop : (!decide (ascii "intr" <+: cstr (ascii "intr " ++ tail))) = false := by
    rw [Bool.not_eq_false', decide_eq_true_iff, cstr, List.takeWhile_append_of_pos (by decide)]
    exact ⟨_, rfl⟩
  rw [statText, fgetsAll_front _ hlines, hintr, beforeIntr, List.takeWhile_append_of_pos hkept,
    List.takeWhile_cons_of_neg (by simp [hstop]), List.append_nil, List.map_cons, List.map_map]
  rfl

theorem totalRead_line (l : StatLine) : totalRead (totalLine l ++ [10]) = some l.read := by
  have htotal : StatLocals.IsTotal (totalLine l ++ [10]) := by
    rw [StatLocals.IsTotal, cstr_line (lines_noByte (by decide) l (0, l)).1, totalLine, List.append_assoc]
    exact ⟨_, rfl⟩
  rw [totalRead, if_pos htotal, accepted, cstr_line (lines_noByte (by decide) l (0, l)).1, numbers_total]
  rfl

theorem coreRead_line (core : UInt32 × StatLine) : IsCore (coreLine core ++ [10]) ∧
    coreRead (coreLine core ++ [10]) = some core.2.read := by
  have hcstr := cstr_line (lines_noByte (by decide) core.2 core).2
  have hcore : IsCore (coreLine core ++ [10]) := by
    rw [IsCore, hcstr, coreLine, List.append_assoc]
    refine ⟨⟨_, rfl⟩, ?_⟩
    obtain ⟨d, ds, hd⟩ := List.exists_cons_of_ne_nil (decimal_ne_nil core.1.toNat)
    have hdigit : isDigit d = true := isDigit_of_mem_decimal (hd ▸ List.mem_cons_self)
    rw [hd]
    exact hdigit
  refine ⟨hcore, ?_⟩
  rw [coreRead, if_pos hcore, accepted, hcstr, numbers_core]
  rfl

theorem reads_cores (parsed : Nat → CpuTimes) (cores : List (UInt32 × StatLine)) (turn : Nat) :
    reads totalRead turn (cores.map fun core => coreLine core ++ [10]) = [] ∧
      (reads coreRead turn (cores.map fun core => coreLine core ++ [10])).map (stored parsed) =
        cores.map fun core => core.2.times := by
  induction cores generalizing turn with
  | nil => exact ⟨rfl, rfl⟩
  | cons core cores ih =>
    obtain ⟨hcore, hread⟩ := coreRead_line core
    have htotal : totalRead (coreLine core ++ [10]) = none := if_neg fun h => h.not_core hcore
    rw [List.map_cons, reads_cons_none htotal, reads_cons_some hread, List.map_cons, (ih _).2, stored,
      store_read]
    exact ⟨(ih _).1, rfl⟩

/-- What the snapshot should be. -/
def cpuSnapshot (total : StatLine) (cores : List (UInt32 × StatLine)) : CpuSnapshot where
  total := total.times
  cores := (cores.map fun core => core.2.times).take MAX_CORES
  bound := List.length_take_le _ _

/-- **`/proc/stat` is read back**, whatever the variables held. -/
theorem cpuReadSnapshot_statText (parsed : Nat → CpuTimes) (total : StatLine)
    (cores : List (UInt32 × StatLine)) (rest : Bytes) :
    cpuReadSnapshot parsed (some (statText total cores rest)) = some (cpuSnapshot total cores) := by
  obtain ⟨snapshot, hread, htotal, hcores⟩ := cpuReadSnapshot_eq parsed (statText total cores rest)
  have hnone : coreRead (totalLine total ++ [10]) = none := by
    refine if_neg (StatLocals.IsTotal.not_core ?_)
    rw [StatLocals.IsTotal, cstr_line (lines_noByte (by decide) total (0, total)).1, totalLine, List.append_assoc]
    exact ⟨_, rfl⟩
  obtain ⟨hlast, hstored⟩ := reads_cores parsed cores (0 + 1)
  rw [beforeIntr_statText, reads_cons_some (totalRead_line total), hlast] at htotal
  rw [beforeIntr_statText, reads_cons_none hnone, List.map_take, hstored] at hcores
  rw [hread]
  exact congrArg some (CpuSnapshot.ext htotal hcores)

/-! ## `/proc/meminfo` -/

/-- `"Key:     123 kB"`; where something is counted there is no unit. -/
structure MeminfoEntry where
  key : Bytes
  gap : Blanks
  value : UInt64
  unit : Bool

def MeminfoEntry.line (e : MeminfoEntry) : Bytes :=
  e.key ++ 58 :: (e.gap.text ++ (decimal e.value.toNat ++ if e.unit then ascii " kB" else []))

/-- What the kernel's entries are like. -/
structure MeminfoEntry.Permitted (e : MeminfoEntry) : Prop where
  bytes : ∀ b ∈ e.key, b ≠ 0 ∧ b ≠ 10 ∧ b ≠ 58
  short : e.key.length + e.gap.text.length ≤ 200
  unit : e.key ∈ Memory.keys → e.unit = true

def meminfoText (entries : List MeminfoEntry) : Bytes := (entries.map MeminfoEntry.line).flatMap (· ++ [10])

/-- The kilobytes under a key. -/
def kilobytes (entries : List MeminfoEntry) (key : Bytes) : UInt64 :=
  ((entries.find? fun e => e.key = key).map MeminfoEntry.value).getD 0

/-- What the statistics should be. -/
def memoryStats (entries : List MeminfoEntry) : MemoryStats :=
  Memory.storeUsed
    { memTotal := kilobytes entries (ascii "MemTotal") * 1024
      memAvailable := kilobytes entries (ascii "MemAvailable") * 1024
      memFree := kilobytes entries (ascii "MemFree") * 1024
      buffers := kilobytes entries (ascii "Buffers") * 1024
      cached := kilobytes entries (ascii "Cached") * 1024
      swapTotal := kilobytes entries (ascii "SwapTotal") * 1024
      swapFree := kilobytes entries (ascii "SwapFree") * 1024
      memUsed := 0
      swapUsed := 0 }

theorem stats_ext {s t : MemoryStats} (h : ∀ f ∈ Memory.fields, f.get s = f.get t)
    (hmem : s.memUsed = t.memUsed) (hswap : s.swapUsed = t.swapUsed) : s = t := by
  cases s
  cases t
  simp only [Memory.fields, List.forall_mem_cons] at h
  obtain ⟨h₁, h₂, h₃, h₄, h₅, h₆, h₇, -⟩ := h
  simp only [MemoryStats.mk.injEq]
  exact ⟨h₁, h₂, h₃, h₄, h₅, h₆, h₇, hmem, hswap⟩

theorem MeminfoEntry.Permitted.noByte {e : MeminfoEntry} (h : e.Permitted) :
    (0 : UInt8) ∉ e.line ∧ (10 : UInt8) ∉ e.line := by
  have hkey : (0 : UInt8) ∉ e.key ∧ (10 : UInt8) ∉ e.key :=
    ⟨fun h0 => (h.bytes 0 h0).1 rfl, fun h10 => (h.bytes 10 h10).2.1 rfl⟩
  have hdigits : (0 : UInt8) ∉ decimal e.value.toNat ∧ (10 : UInt8) ∉ decimal e.value.toNat :=
    ⟨fun h0 => absurd (isDigit_of_mem_decimal h0) (by decide),
      fun h10 => absurd (isDigit_of_mem_decimal h10) (by decide)⟩
  have hunit : (0 : UInt8) ∉ (if e.unit then ascii " kB" else []) ∧
      (10 : UInt8) ∉ (if e.unit then ascii " kB" else []) := by
    cases e.unit <;> exact ⟨by decide, by decide⟩
  simp only [MeminfoEntry.line, List.mem_append, List.mem_cons, not_or]
  exact ⟨⟨hkey.1, by decide, e.gap.noNul, hdigits.1, hunit.1⟩,
    ⟨hkey.2, by decide, e.gap.noNewline, hdigits.2, hunit.2⟩⟩

theorem MeminfoEntry.Permitted.keyOf {e : MeminfoEntry} (h : e.Permitted) :
    MeminfoOrder.keyOf e.line = some e.key := by
  rw [MeminfoOrder.keyOf, cstr_of_noNul h.noByte.1]
  exact cutAt_append (fun h58 => (h.bytes 58 h58).2.2 rfl) _

theorem MeminfoEntry.Permitted.entry {e : MeminfoEntry} (h : e.Permitted) (hkey : e.key ∈ Memory.keys) :
    e.line = MeminfoOrder.entryLine e.key e.gap (.printed e.value) := by
  rw [MeminfoEntry.line, h.unit hkey]
  rfl

theorem MeminfoEntry.Permitted.length {e : MeminfoEntry} (h : e.Permitted) : e.line.length < 255 := by
  have hshort := h.short
  have hn : (decimal e.value.toNat).length ≤ 20 :=
    (decimal_length_le_iff (by decide)).mpr (e.value.toNat_lt.trans (by decide))
  have hunit : (if e.unit then ascii " kB" else []).length ≤ 3 := by cases e.unit <;> decide
  simp only [MeminfoEntry.line, List.length_append, List.length_cons]
  omega

variable {entries : List MeminfoEntry}

theorem meminfoText_lines (entries : List MeminfoEntry) :
    meminfoText entries = MeminfoOrder.meminfoText (entries.map MeminfoEntry.line ++ [[]]) := by
  rw [meminfoText, MeminfoOrder.meminfoText]
  induction entries with
  | nil => rfl
  | cons e entries ih =>
    obtain ⟨l, ls, hl⟩ := List.exists_cons_of_ne_nil
      (List.append_ne_nil_of_right_ne_nil (entries.map MeminfoEntry.line) (List.cons_ne_nil [] []))
    rw [List.map_cons, List.flatMap_cons, ih, List.cons_append, hl, List.intercalate_cons_cons]

theorem meminfo_entries (h : ∀ e ∈ entries, e.Permitted) (hkeys : (entries.map MeminfoEntry.key).Nodup) :
    MeminfoOrder.Meminfo (entries.map MeminfoEntry.line ++ [[]]) := by
  have hkeyOf : ∀ l ∈ entries.map MeminfoEntry.line ++ [[]], ∀ key ∈ MeminfoOrder.keyOf l,
      ∃ e ∈ entries, e.line = l ∧ e.key = key := by
    simp only [List.forall_mem_append, List.forall_mem_map, List.forall_mem_singleton]
    refine ⟨fun e he key hkey => ⟨e, he, rfl, ?_⟩, fun key hkey => ?_⟩
    · rw [(h e he).keyOf] at hkey
      exact Option.some.inj hkey
    · cases hkey
  refine ⟨?_, fun l hl key hkey hmem => ?_, fun key _ => ?_⟩
  · rw [MeminfoOrder.Short, List.forall_mem_append, List.forall_mem_map, List.forall_mem_singleton]
    exact ⟨fun e he => ⟨(h e he).noByte.2, (h e he).length⟩, by decide⟩
  · obtain ⟨e, he, rfl, rfl⟩ := hkeyOf l hl key hkey
    exact ⟨_, _, (h e he).entry hmem⟩
  · have hcount : (entries.map MeminfoEntry.line ++ [[]]).countP (fun l => MeminfoOrder.keyOf l = some key) =
        (entries.map MeminfoEntry.key).count key := by
      rw [List.countP_append, List.countP_map, List.count, List.countP_map]
      refine (Nat.add_zero _).trans (List.countP_congr fun e he => ?_)
      simp [(h e he).keyOf]
    rw [hcount]
    exact List.nodup_iff_count_le_one.mp hkeys key

/-- The field of a key holds its kilobytes, in bytes. -/
theorem get_entries (h : ∀ e ∈ entries, e.Permitted) (hkeys : (entries.map MeminfoEntry.key).Nodup)
    {f : Memory.Field} (hf : f ∈ Memory.fields) :
    f.get (((entries.map MeminfoEntry.line ++ [[]]).filter fun l => MeminfoOrder.Recognised l).foldl
      Memory.readLine Memory.noStats) = kilobytes entries f.key * 1024 := by
  have hmeminfo := meminfo_entries h hkeys
  rw [kilobytes]
  cases hfind : entries.find? fun e => e.key = f.key with
  | some e =>
    have he := List.mem_of_find?_eq_some hfind
    have hkey : e.key = f.key := by simpa using List.find?_some hfind
    have hline := (h e he).entry (hkey ▸ List.mem_map_of_mem hf)
    have hmem : MeminfoOrder.entryLine f.key e.gap (.printed e.value) ∈
        entries.map MeminfoEntry.line ++ [[]] := by
      rw [← hkey, ← hline]
      exact List.mem_append_left _ (List.mem_map_of_mem he)
    rw [hmeminfo.get_present hf hmem, Numeral.value_printed]
    rfl
  | none =>
    rw [hmeminfo.get_absent hf, Memory.noStats_get f hf]
    · rfl
    · intro l hl
      obtain ⟨hl, hr⟩ := List.mem_filter.mp hl
      refine ⟨hl, by simpa using hr, fun hkey => ?_⟩
      rcases List.mem_append.mp hl with hl | hl
      · obtain ⟨e, he, rfl⟩ := List.mem_map.mp hl
        rw [(h e he).keyOf] at hkey
        exact absurd (Option.some.inj hkey) (by simpa using List.find?_eq_none.mp hfind e he)
      · rw [List.mem_singleton.mp hl] at hkey
        cases hkey

/-- **`/proc/meminfo` is read back.** -/
theorem memoryReadStats_meminfoText (h : ∀ e ∈ entries, e.Permitted)
    (hkeys : (entries.map MeminfoEntry.key).Nodup) :
    Memory.memoryReadStats (some (meminfoText entries)) = some (memoryStats entries) := by
  have hget : ∀ f ∈ Memory.fields, f.get _ = kilobytes entries f.key * 1024 := fun f hf =>
    get_entries h hkeys hf
  obtain ⟨hmem, hswap⟩ := Memory.foldl_used
    ((entries.map MeminfoEntry.line ++ [[]]).filter fun l => MeminfoOrder.Recognised l) Memory.noStats
  rw [meminfoText_lines, MeminfoOrder.memoryReadStats_eq (meminfo_entries h hkeys), memoryStats]
  refine congrArg (some ∘ Memory.storeUsed) (stats_ext (fun f hf => (hget f hf).trans ?_) hmem hswap)
  revert f
  apply Memory.forall_fields
  intro i
  fin_cases i <;> rfl

/-! ## `/proc/diskstats` -/

/-- What the snapshot keeps of a device. -/
def diskCounter (d : DeviceTables.BlockDevice) : DiskCounter :=
  ⟨CString.ofBytes 32 d.name.text, d.sectorsRead, d.sectorsWritten⟩

def diskSnapshot (disks : List DeviceTables.BlockDevice) : DiskSnapshot where
  items := ((disks.filter fun d => isWholeDiskName d.name.text).take MAX_DISKS).map diskCounter
  bound := by simp

theorem diskEntry_counter (d : DeviceTables.BlockDevice) :
    CounterLines.diskEntry (d.line.text ++ [10]) = diskCounter d := by
  have hname : (diskWords (d.line.text ++ [10]))[2]? = some d.name.text := by
    rw [d.diskWords_line]
    rfl
  simp only [CounterLines.diskEntry, hname, d.counters_read, Option.getD_some]
  rfl

/-- **`/proc/diskstats` is read back**, the whole disks. -/
theorem diskReadSnapshot_diskstatsText {disks : List DeviceTables.BlockDevice}
    (hfit : ∀ d ∈ disks, d.line.text.length ≤ 510) :
    diskReadSnapshot (some (DeviceTables.diskstatsText disks)) = some (diskSnapshot disks) := by
  obtain ⟨snap, hsnap, hitems⟩ := CounterLines.diskReadSnapshot_items (DeviceTables.diskstatsText disks)
  have hlines : fgetsAll 512 [] (DeviceTables.diskstatsText disks) =
      disks.map fun d => d.line.text ++ [10] := DeviceTables.fgetsAll_table [] (by simp) hfit
  have hall : snap.items = (diskSnapshot disks).items := by
    rw [hitems, hlines, diskSnapshot]
    apply DeviceTables.firstTaken_table
    · intro d _
      rw [Bool.eq_iff_iff, decide_eq_true_iff]
      exact d.diskTaken_iff
    · intro d _
      exact diskEntry_counter d
  rw [hsnap]
  cases snap
  cases hall
  rfl

/-! ## All four -/

/-- What the kernel counts, with the lines that are not read. -/
structure Kernel where
  total : StatLine
  cores : List (UInt32 × StatLine)
  interrupts : Bytes
  memory : List MeminfoEntry
  disks : List DeviceTables.BlockDevice
  interfaces : List ProcNetDev.Interface

/-- Each key comes once, each device fits its line, and the interfaces have names
that Linux permits. -/
structure Kernel.Permitted (k : Kernel) : Prop where
  memory : ∀ e ∈ k.memory, e.Permitted
  keys : (k.memory.map MeminfoEntry.key).Nodup
  disks : ∀ d ∈ k.disks, d.line.text.length ≤ 510
  interfaces : ∀ i ∈ k.interfaces, ProcNetDev.PermittedName i.name

/-- The contents of the files; `none` is one that cannot be opened. -/
structure Contents where
  stat : Option Bytes
  meminfo : Option Bytes
  diskstats : Option Bytes
  netDev : Option Bytes

def Kernel.files (k : Kernel) : Contents where
  stat := some (statText k.total k.cores k.interrupts)
  meminfo := some (meminfoText k.memory)
  diskstats := some (DeviceTables.diskstatsText k.disks)
  netDev := some (ProcNetDev.procNetDev k.interfaces)

/-- What the readers make of the files, given the variables of `cpu_read_snapshot`. -/
def readFiles (cfg : SyswatchConfig) (parsed : Nat → CpuTimes) (files : Contents) : Reads where
  cpu := cpuReadSnapshot parsed files.stat
  memory := Memory.memoryReadStats files.meminfo
  disk := diskReadSnapshot files.diskstats
  net := netReadSnapshot files.netDev cfg.includeLoopback

def netSnapshot (includeLoopback : Bool) (interfaces : List ProcNetDev.Interface) : NetSnapshot where
  items := ((ProcNetDev.counted includeLoopback interfaces).map ProcNetDev.Interface.counter).take
    MAX_INTERFACES
  bound := List.length_take_le _ _

/-- What there is to be read. -/
def Kernel.reads (cfg : SyswatchConfig) (k : Kernel) : Reads where
  cpu := some (cpuSnapshot k.total k.cores)
  memory := some (memoryStats k.memory)
  disk := some (diskSnapshot k.disks)
  net := some (netSnapshot cfg.includeLoopback k.interfaces)

/-- **The files are read back**: the readers return what the kernel counts, of the
first 256 processors, 32 whole disks and 32 interfaces. -/
theorem readFiles_files {k : Kernel} (h : k.Permitted) (cfg : SyswatchConfig) (parsed : Nat → CpuTimes) :
    readFiles cfg parsed k.files = k.reads cfg := by
  obtain ⟨snap, hsnap, hitems⟩ := ProcNetDev.netReadSnapshot_procNetDev cfg.includeLoopback h.interfaces
  have hnet : snap = netSnapshot cfg.includeLoopback k.interfaces := by
    cases snap
    cases hitems
    rfl
  rw [readFiles, Kernel.reads, Kernel.files, cpuReadSnapshot_statText, hsnap, hnet,
    memoryReadStats_meminfoText h.memory h.keys, diskReadSnapshot_diskstatsText h.disks]

/-! ## A small machine -/

def blank : Gap := ⟨⟨[32], by decide⟩, by decide⟩

def sampleDisk : DeviceTables.BlockDevice where
  front := ⟨[32, 32, 32], by decide⟩
  major := ⟨ascii "8", by decide, by decide, by decide⟩
  minor := (blank, ⟨ascii "0", by decide, by decide, by decide⟩)
  gap := blank
  name := ⟨ascii "sda", by decide, by decide, by decide⟩
  short := by decide
  counters := [100, 0, 4000, 7, 50, 0, 6000, 9, 0, 8, 16].map fun n => (blank, Numeral.printed n)
  count := by decide
  back := DeviceTables.noBlanks

/-- One processor, one disk and one interface; the kernel knows no `MemAvailable`. -/
def sampleKernel : Kernel where
  total := ⟨⟨10, 1, 5, 80, 2, 0, 1, 0⟩, 0, 0⟩
  cores := [(0, ⟨⟨10, 1, 5, 80, 2, 0, 1, 0⟩, 0, 0⟩)]
  interrupts := ascii "1 2\nctxt 3\n"
  memory := [⟨ascii "MemTotal", ⟨[32], by decide⟩, 16000000, true⟩,
    ⟨ascii "MemFree", ⟨[32, 32], by decide⟩, 4000000, true⟩,
    ⟨ascii "HugePages_Total", ⟨[32, 32], by decide⟩, 0, false⟩]
  disks := [sampleDisk]
  interfaces := [⟨ascii "eth0", 1000, fun _ => 0, 2000, fun _ => 0⟩]

theorem sampleKernel_permitted : sampleKernel.Permitted where
  memory := by
    simp only [sampleKernel, List.forall_mem_cons]
    exact ⟨⟨by decide, by decide, fun _ => rfl⟩, ⟨by decide, by decide, fun _ => rfl⟩,
      ⟨by decide, by decide, fun h => absurd h (by decide)⟩, List.forall_mem_nil _⟩
  keys := by decide
  disks := List.forall_mem_singleton.mpr (by decide +kernel)
  interfaces := List.forall_mem_singleton.mpr ⟨by decide, by decide, by decide, by decide, by decide⟩

theorem readFiles_files_example :
    readFiles initDefaultConfig (fun _ => ⟨7, 7, 7, 7, 7, 7, 7, 7⟩) sampleKernel.files =
      sampleKernel.reads initDefaultConfig :=
  readFiles_files sampleKernel_permitted _ _

end Syswatch.ProcFiles
