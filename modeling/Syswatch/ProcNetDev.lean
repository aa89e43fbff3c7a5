import Syswatch.DeviceTables

/-! # The text of `/proc/net/dev`

What the kernel prints for a list of interfaces, and that `net_read_snapshot`
reads the names and the two byte counters back. Its lines are a case of the
tables of devices. -/

namespace Syswatch.ProcNetDev
open Lib.CText Lib.Words CounterLines

/-- One interface: its name and its counters, eight for each direction, of
which the bytes come first. -/
structure Interface where
  name : Bytes
  rxBytes : UInt64
  rxOther : Fin 7 → UInt64
  txBytes : UInt64
  txOther : Fin 7 → UInt64

/-- The names Linux permits. -/
structure PermittedName (s : Bytes) : Prop where
  length : 1 ≤ s.length ∧ s.length ≤ 15
  noNul : (0 : UInt8) ∉ s
  noSlash : (47 : UInt8) ∉ s
  noColon : (58 : UInt8) ∉ s
  noSpace : ∀ b ∈ s, isSpace b = false

def Interface.counters (i : Interface) : List UInt64 :=
  i.rxBytes :: (List.ofFn i.rxOther ++ i.txBytes :: List.ofFn i.txOther)

/-- The widths of the sixteen columns. -/
def widths : List Nat := [7, 7, 4, 4, 4, 5, 10, 9, 8, 7, 4, 4, 4, 5, 7, 10]

def padding (width : Nat) (s : Bytes) : Nat := width - s.length

/-- `" %7llu %7llu …"`. -/
def Interface.fields (i : Interface) : List (Nat × Bytes) :=
  (widths.zip i.counters).map fun p => (padding p.1 (decimal p.2.toNat), decimal p.2.toNat)

/-- `"%6s:"` and the counters. -/
def deviceLine (i : Interface) : Bytes :=
  List.replicate (padding 6 i.name) 32 ++ (i.name ++ 58 :: columns i.fields)

def headerLines : List Bytes :=
  [ascii "Inter-|   Receive                                                |  Transmit",
    ascii (" face |bytes    packets errs drop fifo frame compressed multicast" ++
      "|bytes    packets errs drop fifo colls carrier compressed")]

def procNetDev (interfaces : List Interface) : Bytes :=
  (headerLines ++ interfaces.map deviceLine).flatMap (· ++ [10])

/-- What the snapshot keeps of an interface. -/
def Interface.counter (i : Interface) : NetCounter :=
  ⟨CString.ofBytes 32 i.name, i.rxBytes, i.txBytes⟩

/-- The interfaces that are counted. -/
def counted (includeLoopback : Bool) (interfaces : List Interface) : List Interface :=
  interfaces.filter fun i => includeLoopback || i.name ≠ ascii "lo"

theorem counted_cons (includeLoopback : Bool) (i : Interface) (rest : List Interface) :
    counted includeLoopback (i :: rest) =
      if (includeLoopback || i.name ≠ ascii "lo") = true then i :: counted includeLoopback rest
      else counted includeLoopback rest := List.filter_cons

/-! ## One line -/

theorem counter_name {i : Interface} (h : PermittedName i.name) : i.counter.name.bytes = i.name :=
  CString.ofBytes_bytes h.noNul (by have := h.length; omega)

theorem columns_length {ps : List (Nat × Bytes)} {k : Nat}
    (h : ∀ p ∈ ps, p.1 + p.2.length + 1 ≤ k) : (columns ps).length ≤ k * ps.length := by
  induction ps with
  | nil => simp [columns]
  | cons p ps ih =>
    have hp := h p (by simp)
    have hrest := ih fun q hq => h q (by simp [hq])
    rw [columns] at hrest ⊢
    simp only [List.flatMap_cons, List.length_append, List.length_cons, List.length_replicate,
      Nat.mul_add] at hrest ⊢
    omega

/-- A counter has at most twenty digits and a column at most ten places. -/
theorem fields_length (i : Interface) : (columns i.fields).length ≤ 21 * 16 := by
  have hlen : i.fields.length = 16 := by simp [Interface.fields, Interface.counters, widths]
  rw [← hlen]
  refine columns_length fun p hp => ?_
  obtain ⟨⟨w, n⟩, hq, rfl⟩ := List.mem_map.mp hp
  have hw : w ≤ 10 := (by decide : ∀ w ∈ widths, w ≤ 10) w (List.of_mem_zip hq).1
  have hn : (decimal n.toNat).length ≤ 20 :=
    (decimal_length_le_iff (by decide)).mpr (lt_trans n.toNat_lt (by decide))
  simp only [padding]
  omega

theorem deviceLine_length {i : Interface} (h : PermittedName i.name) :
    (deviceLine i).length ≤ 360 := by
  have := h.length
  have := fields_length i
  simp only [deviceLine, List.length_append, List.length_cons, List.length_replicate, padding]
  omega

/-- A column: the blanks and the digits. -/
def column (width : Nat) (n : UInt64) : Gap × Numeral :=
  (⟨⟨32 :: List.replicate (padding width (decimal n.toNat)) 32, by simp⟩, by simp⟩, Numeral.printed n)

/-- The line as one of a table of devices. -/
def Interface.listed (i : Interface) (h : PermittedName i.name) : DeviceTables.Interface where
  front := ⟨List.replicate (padding 6 i.name) 32, by simp⟩
  name := ⟨i.name, List.ne_nil_of_length_pos h.length.1, h.noSpace, h.noNul⟩
  noColon := h.noColon
  short := le_trans h.length.2 (by decide)
  counters := (widths.zip i.counters).map fun p => column p.1 p.2
  count := by simp [widths, Interface.counters]
  back := DeviceTables.noBlanks

theorem listed_text {i : Interface} (h : PermittedName i.name) :
    (i.listed h).line.text = deviceLine i := by
  have hbody : (i.listed h).line.body = i.name ++ 58 :: columns i.fields := by
    rw [columns_eq_spaced, Interface.fields, List.append_cons]
    simp only [DeviceTables.Interface.line, Interface.listed, Line.body, DeviceTables.counterColumns,
      List.map_map]
    rfl
  have hback : (i.listed h).line.back.text = [] := rfl
  rw [Line.text, hbody, hback, List.append_nil]
  rfl

theorem listed_rxBytes {i : Interface} (h : PermittedName i.name) :
    (i.listed h).rxBytes = i.rxBytes := Numeral.value_printed i.rxBytes

theorem listed_txBytes {i : Interface} (h : PermittedName i.name) :
    (i.listed h).txBytes = i.txBytes := Numeral.value_printed i.txBytes

/-- **A printed line is read back**, unless it is the loopback's and that is left out. -/
theorem netTaken_deviceLine (includeLoopback : Bool) {i : Interface} (h : PermittedName i.name) :
    NetTaken includeLoopback (deviceLine i ++ [10]) ↔
      (includeLoopback || i.name ≠ ascii "lo") = true := by
  rw [← listed_text h]
  exact (i.listed h).netTaken_iff includeLoopback

theorem netEntry_deviceLine {i : Interface} (h : PermittedName i.name) :
    netEntry (deviceLine i ++ [10]) = i.counter := by
  rw [← listed_text h, (i.listed h).netEntry_line, listed_rxBytes, listed_txBytes]
  rfl

/-! ## The whole file -/

/-- **`net_read_snapshot` reads the kernel's text back**: the names and byte
counters of the first interfaces that are counted, in order. -/
theorem netReadSnapshot_procNetDev (includeLoopback : Bool) {interfaces : List Interface}
    (h : ∀ i ∈ interfaces, PermittedName i.name) :
    ∃ snap, netReadSnapshot (some (procNetDev interfaces)) includeLoopback = some snap ∧
      snap.items =
        ((counted includeLoopback interfaces).map Interface.counter).take MAX_INTERFACES := by
  have hlines : ∀ l ∈ headerLines ++ interfaces.map deviceLine,
      (10 : UInt8) ∉ l ∧ l.length + 1 < 512 := by
    intro l hl
    rcases List.mem_append.mp hl with hl | hl
    · exact (by decide +kernel : ∀ l ∈ headerLines, (10 : UInt8) ∉ l ∧ l.length + 1 < 512) l hl
    · obtain ⟨i, hi, rfl⟩ := List.mem_map.mp hl
      have hlength := deviceLine_length (h i hi)
      refine ⟨?_, by omega⟩
      rw [← listed_text (h i hi)]
      exact Line.not_mem Blanks.noNewline Word.noNewline
  obtain ⟨snap, hsnap, hitems⟩ := netReadSnapshot_items (procNetDev interfaces) includeLoopback
  refine ⟨snap, hsnap, ?_⟩
  have hdrop : ((headerLines ++ interfaces.map deviceLine).map (· ++ [10])).drop 2 =
      interfaces.map fun i => deviceLine i ++ [10] := by
    rw [List.map_append, List.map_map]
    exact List.drop_left' rfl
  rw [hitems, procNetDev, fgetsAll_lines hlines, hdrop, ← List.map_take]
  apply DeviceTables.firstTaken_table
  · intro i hi
    rw [Bool.eq_iff_iff, decide_eq_true_iff]
    exact netTaken_deviceLine includeLoopback (h i hi)
  · intro i hi
    exact netEntry_deviceLine (h i hi)

/-- An item of the snapshot is one of the interfaces. -/
theorem mem_counters {includeLoopback : Bool} {interfaces : List Interface} {c : NetCounter}
    {n : Nat} (h : c ∈ ((counted includeLoopback interfaces).map Interface.counter).take n) :
    ∃ i ∈ interfaces, i.counter = c := by
  obtain ⟨i, hi, rfl⟩ := List.mem_map.mp (List.mem_of_mem_take h)
  exact ⟨i, List.mem_of_mem_filter hi, rfl⟩

end Syswatch.ProcNetDev
