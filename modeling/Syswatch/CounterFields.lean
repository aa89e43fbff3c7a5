import Syswatch.CounterLines

/-! # Entries and the counters that were read for them

The readers stop at a counter that `parse_ull` refuses, but a line whose tenth
word is refused has ten words already: it is recorded with a count of 0. And a line
that does not fit their buffer is read as several. -/

namespace Syswatch.CounterFields
open Lib.CText CounterLines

section Runs
variable {α γ : Type}

/-- Over the turns of a loop, one adds an entry only where `Read` holds of the turn and
the entry. -/
def AddsOnly (run : List α → List γ) (Read : α → γ → Prop) (turns : List α) : Prop :=
  ∀ before turn after entry, turns = before ++ turn :: after →
    run (before ++ [turn]) = run before ++ [entry] → Read turn entry

theorem mem_firstTaken_iff {taken : α → Bool} {limit : Nat} {lines : List α} {line : α} :
    line ∈ firstTaken taken limit lines ↔ ∃ before after, lines = before ++ line :: after ∧
      taken line = true ∧ (before.filter taken).length < limit := by
  induction lines generalizing limit with
  | nil => simp [firstTaken]
  | cons l rest ih =>
    constructor
    · intro h
      by_cases hl : taken l = true
      · cases limit with
        | zero => simp [firstTaken] at h
        | succ limit =>
          rw [firstTaken_cons_pos hl, List.mem_cons] at h
          rcases h with rfl | h
          · exact ⟨[], rest, rfl, hl, Nat.succ_pos limit⟩
          · obtain ⟨before, after, rfl, htaken, hroom⟩ := ih.mp h
            refine ⟨l :: before, after, rfl, htaken, ?_⟩
            rw [List.filter_cons_of_pos hl, List.length_cons]
            omega
      · rw [firstTaken_cons_neg hl] at h
        obtain ⟨before, after, rfl, htaken, hroom⟩ := ih.mp h
        exact ⟨l :: before, after, rfl, htaken, by rwa [List.filter_cons_of_neg hl]⟩
    · rintro ⟨before, after, hlines, htaken, hroom⟩
      rw [hlines, firstTaken, List.filter_append, List.filter_cons_of_pos htaken, List.take_append,
        List.mem_append]
      obtain ⟨m, hm⟩ : ∃ m, limit - (before.filter taken).length = m + 1 :=
        Nat.exists_eq_succ_of_ne_zero (by omega)
      rw [hm, List.take_succ_cons]
      exact .inr (List.mem_cons_self ..)

/-- The turn for a line that is not taken, or comes too late, adds nothing. -/
theorem firstTaken_snoc (taken : α → Bool) (limit : Nat) (before : List α) (line : α) :
    firstTaken taken limit (before ++ [line]) = firstTaken taken limit before ++
      if taken line = true ∧ (before.filter taken).length < limit then [line] else [] := by
  rw [firstTaken, firstTaken, List.filter_append, List.take_append]
  congr 1
  by_cases htaken : taken line = true
  · rw [List.filter_cons_of_pos htaken]
    by_cases hroom : (before.filter taken).length < limit
    · rw [if_pos ⟨htaken, hroom⟩, List.take_of_length_le (by simp; omega)]
      rfl
    · rw [if_neg fun h => hroom h.2, show limit - (before.filter taken).length = 0 by omega,
        List.take_zero]
  · rw [List.filter_cons_of_neg htaken, if_neg fun h => htaken h.1]
    simp

/-- A loop that records the first lines it takes, behind a header. -/
theorem addsOnly_iff {run : List α → List γ} {taken : α → Bool} {limit : Nat}
    {Read : α → γ → Prop} {lines : List α} (entry : α → γ) (header : Nat)
    (hrun : ∀ lines, run lines = (firstTaken taken limit (lines.drop header)).map entry) :
    AddsOnly run Read lines ↔
      ∀ line ∈ firstTaken taken limit (lines.drop header), Read line (entry line) := by
  constructor
  · intro h line hline
    obtain ⟨before, after, hlines, htaken, hroom⟩ := mem_firstTaken_iff.mp hline
    have hheader : (lines.take header).length = header := by
      have : (lines.drop header).length ≠ 0 := by rw [hlines]; simp
      rw [List.length_drop] at this
      rw [List.length_take]
      omega
    refine h (lines.take header ++ before) line after (entry line) ?_ ?_
    · rw [List.append_assoc, ← hlines, List.take_append_drop]
    · rw [hrun, hrun, List.append_assoc, List.drop_left' hheader, List.drop_left' hheader,
        firstTaken_snoc, if_pos ⟨htaken, hroom⟩, List.map_append]
      rfl
  · intro h before line after e hlines hadds
    rw [hrun, hrun] at hadds
    rcases Nat.lt_or_ge before.length header with hlt | hge
    · rw [List.drop_eq_nil_of_le (by simp; omega), List.drop_eq_nil_of_le (by omega)] at hadds
      simp [firstTaken] at hadds
    · rw [List.drop_append_of_le_length hge, firstTaken_snoc, List.map_append,
        List.append_cancel_left_eq] at hadds
      split at hadds
      · rename_i hadd
        cases hadds
        apply h
        rw [mem_firstTaken_iff]
        refine ⟨before.drop header, after, ?_, hadd⟩
        rw [hlines, List.drop_append_of_le_length hge]
      · cases hadds

end Runs

/-! ## The turns over a file -/

/-- A piece that `fgets` returns, and the line of the file that it is of. -/
structure Turn where
  line : Bytes
  piece : Bytes
  deriving DecidableEq

/-- A line that fits. -/
def Turn.whole (line : Bytes) : Turn := ⟨line, line⟩

def turns (text : Bytes) : List Turn :=
  (textLines [] text).flatMap fun line => (fgetsAll 512 [] line).map (Turn.mk line)

theorem turns_piece (text : Bytes) : (turns text).map Turn.piece = fgetsAll 512 [] text := by
  have hpiece : ∀ line, ((fgetsAll 512 [] line).map (Turn.mk line)).map Turn.piece = fgetsAll 512 [] line :=
    fun line => by rw [List.map_map]; exact List.map_id _
  rw [turns, List.map_flatMap]
  simp only [hpiece]
  rw [textLines_pieces, List.nil_append]

/-- The tenth word of the line is a counter and, if the line was cut, the counters of the
piece are those of the line; the one of the tenth word is 0 where it is none. -/
def Intact (words : Bytes → List Bytes) (column : Nat) (t : Turn) : Prop :=
  (counterAt (words t.line) 9).isSome ∧
    (t.piece ≠ t.line → counterAt (words t.piece) column = counterAt (words t.line) column ∧
      (counterAt (words t.piece) 9).getD 0 = (counterAt (words t.line) 9).getD 0)

theorem intact_iff {words : Bytes → List Bytes} {column : Nat} {t : Turn}
    (h : (counterAt (words t.piece) column).isSome) :
    counterAt (words t.line) column = some ((counterAt (words t.piece) column).getD 0) ∧
        counterAt (words t.line) 9 = some ((counterAt (words t.piece) 9).getD 0) ↔
      Intact words column t := by
  obtain ⟨count, hcount⟩ := Option.isSome_iff_exists.mp h
  rw [Intact, hcount, Option.getD_some]
  constructor
  · rintro ⟨hfirst, hsecond⟩
    refine ⟨by rw [hsecond]; rfl, fun _ => ⟨hfirst.symm, ?_⟩⟩
    rw [hsecond, Option.getD_some]
  · rintro ⟨htenth, hcut⟩
    obtain ⟨other, hother⟩ := Option.isSome_iff_exists.mp htenth
    rw [hother, Option.getD_some] at hcut
    by_cases hwhole : t.piece = t.line
    · rw [hwhole] at hcount ⊢
      rw [hother, Option.getD_some]
      exact ⟨hcount, rfl⟩
    · obtain ⟨hfirst, hsecond⟩ := hcut hwhole
      exact ⟨hfirst.symm, by rw [hother, hsecond]⟩

/-! ## The two readers -/

/-- The loops over the pieces. -/
def diskRecorded (ts : List Turn) : List DiskCounter := diskLines (ts.map Turn.piece) []

def netRecorded (includeLoopback : Bool) (ts : List Turn) : List NetCounter :=
  netLines includeLoopback 0 (ts.map Turn.piece) []

/-- The entry holds what `parse_ull` reads in the sixth and in the tenth word of the line. -/
def DiskRead (t : Turn) (c : DiskCounter) : Prop :=
  counterAt (diskWords t.line) 5 = some c.sectorsRead ∧
    counterAt (diskWords t.line) 9 = some c.sectorsWritten

/-- The entry holds what `parse_ull` reads in the second and in the tenth word of the line. -/
def NetRead (t : Turn) (c : NetCounter) : Prop :=
  counterAt (netWords t.line) 1 = some c.rxBytes ∧ counterAt (netWords t.line) 9 = some c.txBytes

/-- **An entry holds counters that were read of its line, exactly where every recorded
line has a tenth word that `parse_ull` accepts and shows its two counters also where it
is cut.** -/
theorem entries_read_iff (diskstats netDev : Bytes) (includeLoopback : Bool) :
    ((diskReadSnapshot (some diskstats)).map DiskSnapshot.items = some (diskRecorded (turns diskstats)) ∧
      (AddsOnly diskRecorded DiskRead (turns diskstats) ↔
        ∀ t ∈ firstTaken (fun t => DiskTaken t.piece) MAX_DISKS (turns diskstats),
          Intact diskWords 5 t)) ∧
    ((netReadSnapshot (some netDev) includeLoopback).map NetSnapshot.items =
        some (netRecorded includeLoopback (turns netDev)) ∧
      (AddsOnly (netRecorded includeLoopback) NetRead (turns netDev) ↔
        ∀ t ∈ firstTaken (fun t => NetTaken includeLoopback t.piece) MAX_INTERFACES
            ((turns netDev).drop 2),
          Intact netWords 1 t)) := by
  refine ⟨⟨?_, ?_⟩, ?_, ?_⟩
  · rw [diskRecorded, turns_piece]
    rfl
  · have hrun (ts : List Turn) : diskRecorded ts =
        (firstTaken (fun t => DiskTaken t.piece) MAX_DISKS (ts.drop 0)).map fun t => diskEntry t.piece := by
      rw [diskRecorded, diskLines_eq, firstTaken_map, List.map_map]
      rfl
    rw [addsOnly_iff _ 0 hrun]
    refine forall₂_congr fun t ht => ?_
    obtain ⟨-, -, hcounter, -⟩ := taken_of_mem (P := fun t : Turn => DiskTaken t.piece) ht
    exact intact_iff hcounter
  · rw [netRecorded, turns_piece]
    rfl
  · have hrun (ts : List Turn) : netRecorded includeLoopback ts =
        (firstTaken (fun t => NetTaken includeLoopback t.piece) MAX_INTERFACES (ts.drop 2)).map
          fun t => netEntry t.piece := by
      rw [netRecorded, netLines_eq, ← List.map_drop, firstTaken_map, List.map_map]
      rfl
    rw [addsOnly_iff _ 2 hrun]
    refine forall₂_congr fun t ht => ?_
    obtain ⟨-, -, hcounter, -⟩ := taken_of_mem (P := fun t : Turn => NetTaken includeLoopback t.piece) ht
    exact intact_iff hcounter

/-- A line whose tenth word is cut behind its third digit. -/
def longLine : Bytes :=
  ascii "8 0 sda 1 0 40 1 3 0" ++ List.replicate 488 32 ++ ascii "123456 2"

/-- A disk with a damaged tenth column, an interface with one, and a disk whose line is
longer than the buffer. -/
theorem entry_not_read :
    ¬ AddsOnly diskRecorded DiskRead (turns (ascii "8 0 sda 5 0 40 1 3 0 24x 2\n")) ∧
      ¬ AddsOnly (netRecorded false) NetRead
        (turns (ascii "Inter-|\n face |\neth0: 700 7 0 0 0 0 0 0 -\n")) ∧
      ¬ AddsOnly diskRecorded DiskRead (turns longLine) := by
  refine ⟨?_, ?_, ?_⟩
  · intro h
    obtain ⟨-, hwritten⟩ := h [] (.whole (ascii "8 0 sda 5 0 40 1 3 0 24x 2\n")) []
      ⟨CString.ofBytes 32 (ascii "sda"), 40, 0⟩ (by decide) (by decide)
    exact absurd hwritten (by decide)
  · intro h
    obtain ⟨-, hsent⟩ := h [.whole (ascii "Inter-|\n"), .whole (ascii " face |\n")]
      (.whole (ascii "eth0: 700 7 0 0 0 0 0 0 -\n")) []
      ⟨CString.ofBytes 32 (ascii "eth0"), 700, 0⟩ (by decide) (by decide)
    exact absurd hsent (by decide)
  · intro h
    obtain ⟨-, hwritten⟩ := h [] ⟨longLine, longLine.take 511⟩ [⟨longLine, ascii "456 2"⟩]
      ⟨CString.ofBytes 32 (ascii "sda"), 40, 123⟩ (by decide +kernel) (by decide +kernel)
    exact absurd hwritten (by decide +kernel)

end Syswatch.CounterFields
