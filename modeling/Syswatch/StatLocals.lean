import Syswatch.ProcStat

/-! # Where the counters of `/proc/stat` come from

A line is taken with four numbers, but eight variables are copied from it. The
result is free of what the variables held before exactly when every line that
reaches it has all eight. -/

namespace Syswatch.StatLocals
open Lib.CText Lib.Scanf ProcStat

/-! ## The lines that are taken -/

/-- What `sscanf` reads where a line is accepted: four numbers or more. -/
def accepted (fmt : List Part) (line : Bytes) : Option (List UInt64) :=
  let read := numbers fmt (cstr line)
  if 4 ≤ read.length then some read else none

def IsTotal (line : Bytes) : Prop := ascii "cpu " <+: cstr line

def IsCore (line : Bytes) : Prop :=
  ascii "cpu" <+: cstr line ∧ ((cstr line).drop 3).head?.any isDigit

instance (line : Bytes) : Decidable (IsTotal line) := inferInstanceAs (Decidable (_ <+: _))

instance (line : Bytes) : Decidable (IsCore line) := inferInstanceAs (Decidable (_ ∧ _))

def totalRead (line : Bytes) : Option (List UInt64) :=
  if IsTotal line then accepted cpuFormat line else none

def coreRead (line : Bytes) : Option (List UInt64) :=
  if IsCore line then accepted coreFormat line else none

/-- The loop ends at the line of the interrupts. -/
def beforeIntr (lines : List Bytes) : List Bytes :=
  lines.takeWhile fun line => !decide (ascii "intr" <+: cstr line)

theorem not_intr_of_cpu {text : Bytes} (h : ascii "cpu" <+: text) : ¬ ascii "intr" <+: text := by
  obtain ⟨rest, rfl⟩ := h
  rintro ⟨rest', h⟩
  cases h

theorem IsTotal.not_core {line : Bytes} (h : IsTotal line) : ¬ IsCore line := by
  rintro ⟨-, hdigit⟩
  obtain ⟨rest, hrest⟩ := h
  rw [← hrest] at hdigit
  cases hdigit

theorem IsTotal.cpu {line : Bytes} (h : IsTotal line) : ascii "cpu" <+: cstr line :=
  (show ascii "cpu" <+: ascii "cpu " from ⟨[32], rfl⟩).trans h

/-- Reads together with the turn of the loop that makes them. -/
def reads (f : Bytes → Option (List UInt64)) (turn : Nat) (lines : List Bytes) :
    List (Nat × List UInt64) :=
  (lines.zipIdx turn).filterMap fun p => (f p.1).map fun read => (p.2, read)

theorem reads_snd (f : Bytes → Option (List UInt64)) (turn : Nat) (lines : List Bytes) :
    (reads f turn lines).map Prod.snd = lines.filterMap f := by
  induction lines generalizing turn with
  | nil => rfl
  | cons line rest ih =>
    rw [reads, List.zipIdx_cons, List.filterMap_cons, List.filterMap_cons, ← ih (turn + 1)]
    cases f line <;> rfl

theorem reads_cons_none {f : Bytes → Option (List UInt64)} {line : Bytes} (h : f line = none)
    (turn : Nat) (rest : List Bytes) : reads f turn (line :: rest) = reads f (turn + 1) rest := by
  rw [reads, List.zipIdx_cons, List.filterMap_cons, h]
  rfl

theorem reads_cons_some {f : Bytes → Option (List UInt64)} {line : Bytes} {read : List UInt64}
    (h : f line = some read) (turn : Nat) (rest : List Bytes) :
    reads f turn (line :: rest) = (turn, read) :: reads f (turn + 1) rest := by
  rw [reads, List.zipIdx_cons, List.filterMap_cons, h]
  rfl

/-- The variables of a turn, with the numbers of its line stored in them. -/
def stored (parsed : Nat → CpuTimes) (r : Nat × List UInt64) : CpuTimes := store (parsed r.1) r.2

theorem accepted_eq (fmt : List Part) (line : Bytes) :
    4 ≤ (numbers fmt (cstr line)).length ∧ accepted fmt line = some (numbers fmt (cstr line)) ∨
      ¬ 4 ≤ (numbers fmt (cstr line)).length ∧ accepted fmt line = none := by
  by_cases h : 4 ≤ (numbers fmt (cstr line)).length
  · exact .inl ⟨h, if_pos h⟩
  · exact .inr ⟨h, if_neg h⟩

/-- The total is that of the last line taken, and the cores are the first ones. -/
theorem statLoop_eq (parsed : Nat → CpuTimes) (turn : Nat) (lines : List Bytes) (total : CpuTimes)
    (cores : List CpuTimes) :
    statLoop parsed turn lines total cores =
      ((reads totalRead turn (beforeIntr lines)).getLast?.elim total (stored parsed),
        cores ++ ((reads coreRead turn (beforeIntr lines)).take (MAX_CORES - cores.length)).map
          (stored parsed)) := by
  induction lines generalizing turn total cores with
  | nil => simp [statLoop, beforeIntr, reads]
  | cons line rest ih =>
    have hkept (h : ¬ ascii "intr" <+: cstr line) :
        beforeIntr (line :: rest) = line :: beforeIntr rest :=
      List.takeWhile_cons_of_pos (by simpa using h)
    rw [statLoop]
    dsimp only
    by_cases htotal : ascii "cpu " <+: cstr line
    · have hcore : coreRead line = none := if_neg (IsTotal.not_core htotal)
      rw [if_pos htotal, hkept (not_intr_of_cpu (IsTotal.cpu htotal)), reads_cons_none hcore]
      rcases accepted_eq cpuFormat line with ⟨hlen, hread⟩ | ⟨hlen, hread⟩
      · rw [if_pos hlen, ih, reads_cons_some ((if_pos htotal).trans hread), List.getLast?_cons]
        cases (reads totalRead (turn + 1) (beforeIntr rest)).getLast? <;> rfl
      · rw [if_neg hlen, ih, reads_cons_none ((if_pos htotal).trans hread)]
    · have hno : totalRead line = none := if_neg htotal
      rw [if_neg htotal]
      by_cases hcore : IsCore line
      · rw [hkept (not_intr_of_cpu hcore.1), reads_cons_none hno]
        by_cases hroom : cores.length < MAX_CORES
        · rw [if_pos ⟨hcore.1, hcore.2, hroom⟩]
          rcases accepted_eq coreFormat line with ⟨hlen, hread⟩ | ⟨hlen, hread⟩
          · obtain ⟨room, hr⟩ : ∃ room, MAX_CORES - cores.length = room + 1 :=
              ⟨MAX_CORES - cores.length - 1, by omega⟩
            rw [if_pos hlen, ih, reads_cons_some ((if_pos hcore).trans hread), hr,
              List.length_append, List.length_singleton, List.take_succ_cons,
              show MAX_CORES - (cores.length + 1) = room by omega, List.append_assoc]
            rfl
          · rw [if_neg hlen, ih, reads_cons_none ((if_pos hcore).trans hread)]
        · rw [if_neg fun h => hroom h.2.2, if_neg (not_intr_of_cpu hcore.1), ih,
            show MAX_CORES - cores.length = 0 by omega, List.take_zero, List.take_zero]
      · rw [if_neg fun h => hcore ⟨h.1, h.2.1⟩]
        by_cases hintr : ascii "intr" <+: cstr line
        · have hend : beforeIntr (line :: rest) = [] :=
            List.takeWhile_cons_of_neg (by simpa using hintr)
          rw [if_pos hintr, hend]
          simp [reads]
        · rw [if_neg hintr, ih, hkept hintr, reads_cons_none hno, reads_cons_none (if_neg hcore)]

/-! ## Variables that are all set -/

/-- All eight numbers. -/
def Full (read : List UInt64) : Prop := read.length = 8

instance (read : List UInt64) : Decidable (Full read) := inferInstanceAs (Decidable (_ = _))

theorem numbers_le_eight (line : Bytes) :
    (numbers cpuFormat line).length ≤ 8 ∧ (numbers coreFormat line).length ≤ 8 :=
  ⟨numbers_length_le cpuFormat line, numbers_length_le coreFormat line⟩

/-- Nothing shows through. -/
theorem store_of_full {read : List UInt64} (h : Full read) (t t' : CpuTimes) :
    store t read = store t' read := by
  have hget (i : Nat) (hi : i < 8) (d d' : UInt64) : read.getD i d = read.getD i d' := by
    have hlt : i < read.length := by rw [h]; exact hi
    simp [List.getD_eq_getElem?_getD, hlt]
  simp only [store, CpuTimes.mk.injEq]
  exact ⟨hget 0 (by omega) _ _, hget 1 (by omega) _ _, hget 2 (by omega) _ _,
    hget 3 (by omega) _ _, hget 4 (by omega) _ _, hget 5 (by omega) _ _, hget 6 (by omega) _ _,
    hget 7 (by omega) _ _⟩

/-- What no line has set: a last variable that happens to hold 1. -/
def strayTimes : CpuTimes := { zeroTimes with steal := 1 }

/-- The last variable shows through a shorter line, in the copy and in the sum. -/
theorem stray_of_short {read : List UInt64} (h : read.length < 8) :
    store strayTimes read ≠ store zeroTimes read ∧
      cpuTotalJiffies (store strayTimes read) ≠ cpuTotalJiffies (store zeroTimes read) := by
  have hnone : read[7]? = none := List.getElem?_eq_none (by omega)
  have hstray : (store strayTimes read).steal = 1 := by
    simp [store, strayTimes, List.getD_eq_getElem?_getD, hnone]
  have hzero : (store zeroTimes read).steal = 0 := by
    simp [store, zeroTimes, List.getD_eq_getElem?_getD, hnone]
  constructor
  · intro he
    rw [he, hzero] at hstray
    cases hstray
  · intro he
    rw [cpuTotalJiffies, cpuTotalJiffies, hstray, hzero] at he
    exact absurd (UInt64.add_right_inj _ |>.mp he) (by decide)

/-! ## The condition -/

/-- Every line that reaches the snapshot or the total jiffies has all eight
numbers: the last total, the cores there is room for, and the first line. A line is
what one call of `fgets` gives, at most 511 bytes. -/
structure Complete (text : Bytes) : Prop where
  total : ∀ read ∈ ((beforeIntr (fgetsAll 512 [] text)).filterMap totalRead).getLast?, Full read
  cores : ∀ read ∈ ((beforeIntr (fgetsAll 512 [] text)).filterMap coreRead).take MAX_CORES, Full read
  first : ∀ read ∈ (fgetsAll 512 [] text).head?.bind (accepted cpuFormat), Full read

theorem accepted_full {fmt : List Part} {line : Bytes} {read : List UInt64}
    (hfmt : ∀ s, (numbers fmt s).length ≤ 8) (h : accepted fmt line = some read)
    (hshort : ¬ read.length < 8) : Full read := by
  rcases accepted_eq fmt line with ⟨-, hread⟩ | ⟨-, hread⟩
  · rw [hread] at h
    cases h
    exact le_antisymm (hfmt _) (not_lt.mp hshort)
  · rw [hread] at h
    cases h

theorem totalRead_full {line : Bytes} {read : List UInt64} (h : totalRead line = some read)
    (hshort : ¬ read.length < 8) : Full read := by
  unfold totalRead at h
  split at h
  · exact accepted_full (fun s => (numbers_le_eight s).1) h hshort
  · cases h

theorem coreRead_full {line : Bytes} {read : List UInt64} (h : coreRead line = some read)
    (hshort : ¬ read.length < 8) : Full read := by
  unfold coreRead at h
  split at h
  · exact accepted_full (fun s => (numbers_le_eight s).2) h hshort
  · cases h

theorem readTotalCpuJiffies_eq (locals : CpuTimes) (text : Bytes) :
    readTotalCpuJiffies locals (some text) =
      ((fgetsAll 512 [] text).head?.bind (accepted cpuFormat)).map
        fun read => cpuTotalJiffies (store locals read) := by
  rw [readTotalCpuJiffies, Option.bind_some]
  cases (fgetsAll 512 [] text).head? with
  | none => rfl
  | some line =>
    rw [Option.bind_some, Option.bind_some]
    rcases accepted_eq cpuFormat line with ⟨hlen, hread⟩ | ⟨hlen, hread⟩
    · rw [hread, Option.map_some, if_neg (not_lt.mpr hlen)]
    · rw [hread, Option.map_none, if_pos (not_le.mp hlen)]

theorem cpuReadSnapshot_eq (parsed : Nat → CpuTimes) (text : Bytes) :
    ∃ snapshot, cpuReadSnapshot parsed (some text) = some snapshot ∧
      snapshot.total = (reads totalRead 0 (beforeIntr (fgetsAll 512 [] text))).getLast?.elim zeroTimes
        (stored parsed) ∧
      snapshot.cores = ((reads coreRead 0 (beforeIntr (fgetsAll 512 [] text))).take MAX_CORES).map
        (stored parsed) := by
  refine ⟨_, rfl, ?_, ?_⟩
  · exact congrArg Prod.fst (statLoop_eq parsed 0 _ zeroTimes [])
  · exact congrArg Prod.snd (statLoop_eq parsed 0 _ zeroTimes [])

theorem CpuSnapshot.ext {s t : CpuSnapshot} (htotal : s.total = t.total) (hcores : s.cores = t.cores) :
    s = t := by
  cases s
  cases t
  cases htotal
  cases hcores
  rfl

/-- The result is the one with all variables at zero. -/
def Determined (text : Bytes) : Prop :=
  (∀ parsed, cpuReadSnapshot parsed (some text) = cpuReadSnapshot (fun _ => zeroTimes) (some text)) ∧
    ∀ locals, readTotalCpuJiffies locals (some text) = readTotalCpuJiffies zeroTimes (some text)

theorem Complete.determined {text : Bytes} (h : Complete text) : Determined text := by
  have hget {f : Bytes → Option (List UInt64)} {lines : List Bytes} {r : Nat × List UInt64}
      (hr : r ∈ reads f 0 lines) : r.2 ∈ lines.filterMap f := by
    rw [← reads_snd f 0]
    exact List.mem_map_of_mem hr
  constructor
  · intro parsed
    obtain ⟨s, hs, hstotal, hscores⟩ := cpuReadSnapshot_eq parsed text
    obtain ⟨z, hz, hztotal, hzcores⟩ := cpuReadSnapshot_eq (fun _ => zeroTimes) text
    rw [hs, hz, Option.some.injEq]
    apply CpuSnapshot.ext
    · rw [hstotal, hztotal]
      cases hlast : (reads totalRead 0 (beforeIntr (fgetsAll 512 [] text))).getLast? with
      | none => rfl
      | some r =>
        have hfull := h.total r.2 (by rw [← reads_snd totalRead 0, List.getLast?_map, hlast]; rfl)
        exact store_of_full hfull _ _
    · rw [hscores, hzcores]
      apply List.map_congr_left
      intro r hr
      have hfull := h.cores r.2 (by
        rw [← reads_snd coreRead 0, ← List.map_take]
        exact List.mem_map_of_mem hr)
      exact store_of_full hfull _ _
  · intro locals
    rw [readTotalCpuJiffies_eq, readTotalCpuJiffies_eq]
    cases hread : (fgetsAll 512 [] text).head?.bind (accepted cpuFormat) with
    | none => rw [Option.map_none, Option.map_none]
    | some read =>
      rw [Option.map_some, Option.map_some, store_of_full (h.first read hread) locals zeroTimes]

theorem Determined.complete {text : Bytes} (h : Determined text) : Complete text := by
  obtain ⟨hsnapshot, hjiffies⟩ := h
  obtain ⟨s, hs, hstotal, hscores⟩ := cpuReadSnapshot_eq (fun _ => strayTimes) text
  obtain ⟨z, hz, hztotal, hzcores⟩ := cpuReadSnapshot_eq (fun _ => zeroTimes) text
  have hsame : s = z := by
    have := hsnapshot fun _ => strayTimes
    rwa [hs, hz, Option.some.injEq] at this
  refine ⟨?_, ?_, ?_⟩
  · intro read hread
    obtain ⟨line, -, hline⟩ := List.mem_filterMap.mp (List.mem_of_getLast? hread)
    apply totalRead_full hline
    intro hshort
    rw [← reads_snd totalRead 0, List.getLast?_map] at hread
    obtain ⟨r, hlast, rfl⟩ := Option.map_eq_some_iff.mp hread
    rw [hsame, hztotal, hlast] at hstotal
    exact (stray_of_short hshort).1 hstotal.symm
  · intro read hread
    obtain ⟨line, -, hline⟩ := List.mem_filterMap.mp (List.mem_of_mem_take hread)
    apply coreRead_full hline
    intro hshort
    rw [← reads_snd coreRead 0, ← List.map_take] at hread
    obtain ⟨r, hr, rfl⟩ := List.mem_map.mp hread
    rw [hsame, hzcores] at hscores
    exact (stray_of_short hshort).1 (List.map_inj_left.mp hscores r hr).symm
  · intro read hread
    obtain ⟨line, -, hline⟩ := Option.bind_eq_some_iff.mp hread
    apply accepted_full (fun s => (numbers_le_eight s).1) hline
    intro hshort
    have hsum := hjiffies strayTimes
    rw [readTotalCpuJiffies_eq, readTotalCpuJiffies_eq, hread] at hsum
    exact (stray_of_short hshort).2 (Option.some.inj hsum)

/-- **What the variables held before shows exactly where a line is short**: four
to seven numbers are enough to be accepted, but all eight are copied. -/
theorem counters_come_from_file (text : Bytes) : Determined text ↔ Complete text :=
  ⟨Determined.complete, Complete.determined⟩

/-- `cpu  100 0 50 800`: four numbers. -/
theorem short_line_shows_locals : ¬ Determined (ascii "cpu  100 0 50 800\n") := by
  rintro ⟨-, hjiffies⟩
  exact absurd (hjiffies strayTimes) (by decide)

end Syswatch.StatLocals
