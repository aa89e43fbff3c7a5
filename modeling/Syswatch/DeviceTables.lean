import Syswatch.CounterLines
import Syswatch.Lib.Words

/-! # Tables of devices, as the kernel prints them

A table has one line for each device: words, with blanks between them that may
be of any kind and number. Both readers give back the first devices they count,
with the two counters of each. -/

namespace Syswatch.DeviceTables
open Lib.CText Lib.Words CounterLines

/-! ## One line -/

theorem parseUll_numeral (n : Numeral) : parseUll n.text = some n.value :=
  parseUll_digits n.nonempty n.digits n.small

/-- **The words of a line are read back**, whatever blanks there are. -/
theorem words_read (l : Line) :
    strtokAll (fun b => b == 32 || b == 9) [] (trimWhitespace (cstr (l.text ++ [10]))) = l.words := by
  have hcstr : cstr (l.text ++ [10]) = l.text ++ [10] := by
    have := Line.not_mem (l := l) Blanks.noNul Word.noNul
    exact cstr_of_noNul (by simpa using this)
  have hback : ∀ b ∈ l.back.text ++ [10], isSpace b = true := by
    intro b hb
    rcases List.mem_append.mp hb with hb | hb
    · exact l.back.isSpace b hb
    · rw [List.mem_singleton.mp hb]
      rfl
  have hfirst : ∀ b ∈ l.body.head?, isSpace b = false := by
    intro b hb
    rw [Line.body, List.head?_append_of_ne_nil _ l.first.nonempty] at hb
    exact l.first.noSpace b (List.mem_of_head? hb)
  have htrim : trimWhitespace (l.text ++ [10]) = l.body := by
    rw [Line.text, List.append_assoc, List.append_assoc]
    exact trimWhitespace_surrounded l.front.isSpace hback hfirst l.body_last
  rw [hcstr, htrim, l.strtokAll_body]

/-- The counters at the end of a line. -/
def counterColumns (counters : List (Gap × Numeral)) : List (Gap × Word) :=
  counters.map fun p => (p.1, p.2.word)

/-- The counter in a column behind `before` other words. -/
theorem counterAt_columns (before : List Bytes) {counters : List (Gap × Numeral)} {k : Nat}
    (h : k < counters.length) :
    counterAt (before ++ (counterColumns counters).map fun p => p.2.text) (before.length + k) =
      some (counters[k].2.value) := by
  rw [counterAt, List.getElem?_append_right (by omega), Nat.add_sub_cancel_left]
  simp only [counterColumns, List.map_map, List.getElem?_map, List.getElem?_eq_getElem h]
  exact parseUll_numeral counters[k].2

/-- `fgets` returns the lines of a table, each with its newline. -/
theorem fgetsAll_table {δ : Type} (header : List Bytes) {line : δ → Line} {devices : List δ}
    (hheader : ∀ h ∈ header, (10 : UInt8) ∉ h ∧ h.length ≤ 510)
    (hfit : ∀ d ∈ devices, (line d).text.length ≤ 510) :
    fgetsAll 512 [] ((header ++ devices.map fun d => (line d).text).flatMap (· ++ [10])) =
      header.map (· ++ [10]) ++ devices.map fun d => (line d).text ++ [10] := by
  rw [fgetsAll_lines, List.map_append, List.map_map]
  · rfl
  · intro l hl
    rcases List.mem_append.mp hl with hl | hl
    · obtain ⟨hn, hlen⟩ := hheader l hl
      exact ⟨hn, by omega⟩
    · obtain ⟨d, hd, rfl⟩ := List.mem_map.mp hl
      have := hfit d hd
      exact ⟨Line.not_mem Blanks.noNewline Word.noNewline, by omega⟩

/-- The lines of a table that are taken, and what is recorded of them. -/
theorem firstTaken_table {δ β : Type} {taken : Bytes → Bool} {entry : Bytes → β} {limit : Nat}
    {text : δ → Bytes} {keep : δ → Bool} {expected : δ → β} {devices : List δ}
    (htaken : ∀ d ∈ devices, taken (text d) = keep d)
    (hentry : ∀ d ∈ devices, entry (text d) = expected d) :
    (firstTaken taken limit (devices.map text)).map entry =
      ((devices.filter keep).take limit).map expected := by
  have hfilter : devices.filter (taken ∘ text) = devices.filter keep := List.filter_congr htaken
  rw [firstTaken, List.filter_map, hfilter, ← List.map_take, List.map_map]
  apply List.map_congr_left
  intro d hd
  exact hentry d (List.mem_of_mem_filter (List.mem_of_mem_take hd))

/-! ## `/proc/net/dev` -/

/-- An interface, with the blanks of its line. -/
structure Interface where
  front : Blanks
  name : Word
  noColon : (58 : UInt8) ∉ name.text
  short : name.text.length ≤ 31
  counters : List (Gap × Numeral)
  count : 9 ≤ counters.length ∧ counters.length ≤ 16
  back : Blanks

/-- The name with its colon. -/
def Interface.label (i : Interface) : Word where
  text := i.name.text ++ [58]
  nonempty := by simp
  noSpace := by
    rw [List.forall_mem_append]
    exact ⟨i.name.noSpace, by decide⟩
  noNul := by simpa using i.name.noNul

def Interface.line (i : Interface) : Line := ⟨i.front, i.label, counterColumns i.counters, i.back⟩

/-- The first counter. -/
def Interface.rxBytes (i : Interface) : UInt64 :=
  (i.counters.get ⟨0, by have := i.count; omega⟩).2.value

/-- The ninth counter. -/
def Interface.txBytes (i : Interface) : UInt64 :=
  (i.counters.get ⟨8, by have := i.count; omega⟩).2.value

/-- The file: two lines of header and a line for each interface. -/
def netDevText (header₁ header₂ : Bytes) (interfaces : List Interface) : Bytes :=
  ([header₁, header₂] ++ interfaces.map fun i => i.line.text).flatMap (· ++ [10])

theorem Interface.netWords_line (i : Interface) :
    netWords (i.line.text ++ [10]) =
      [i.label.text] ++ (counterColumns i.counters).map fun p => p.2.text := words_read i.line

theorem Interface.netTaken_iff (i : Interface) (includeLoopback : Bool) :
    NetTaken includeLoopback (i.line.text ++ [10]) ↔
      (includeLoopback || i.name.text ≠ ascii "lo") = true := by
  have hlen : 10 ≤ (netWords (i.line.text ++ [10])).length := by
    have := i.count
    simp [Interface.netWords_line, counterColumns]
    omega
  have hfirst : (counterAt (netWords (i.line.text ++ [10])) 1).isSome := by
    rw [i.netWords_line, show 1 = [i.label.text].length + 0 from rfl,
      counterAt_columns [i.label.text] (by have := i.count; omega)]
    rfl
  have hname : netName (netWords (i.line.text ++ [10])) = some i.name.text := by
    rw [i.netWords_line]
    exact cutAt_append i.noColon []
  rw [NetTaken, hname]
  exact ⟨fun h => h.2.2, fun h => ⟨hlen, hfirst, h⟩⟩

theorem Interface.netEntry_line (i : Interface) :
    netEntry (i.line.text ++ [10]) = ⟨CString.ofBytes 32 i.name.text, i.rxBytes, i.txBytes⟩ := by
  have hcount := i.count
  have hname : netName (netWords (i.line.text ++ [10])) = some i.name.text := by
    rw [i.netWords_line]
    exact cutAt_append i.noColon []
  have hrx : counterAt (netWords (i.line.text ++ [10])) 1 = some i.rxBytes := by
    rw [i.netWords_line]
    exact counterAt_columns [i.label.text] (k := 0) (by omega)
  have htx : counterAt (netWords (i.line.text ++ [10])) 9 = some i.txBytes := by
    rw [i.netWords_line]
    exact counterAt_columns [i.label.text] (k := 8) (by omega)
  simp only [netEntry, hname, hrx, htx, Option.getD_some]

theorem Interface.name_kept (i : Interface) : (CString.ofBytes 32 i.name.text).bytes = i.name.text :=
  CString.ofBytes_bytes i.name.noNul (by have := i.short; omega)

/-- **`net_read_snapshot` reads the table back**: the first 32 interfaces, less
the loopback where it is left out, each with its first and its ninth counter. -/
theorem net_read_snapshot_table (includeLoopback : Bool) {header₁ header₂ : Bytes}
    (hheader : ∀ h ∈ [header₁, header₂], (10 : UInt8) ∉ h ∧ h.length ≤ 510)
    {interfaces : List Interface} (hfit : ∀ i ∈ interfaces, i.line.text.length ≤ 510) :
    ∃ snap, netReadSnapshot (some (netDevText header₁ header₂ interfaces)) includeLoopback =
        some snap ∧
      snap.items.map (fun e => (e.name.bytes, e.rxBytes, e.txBytes)) =
        ((interfaces.filter fun i => includeLoopback || i.name.text ≠ ascii "lo").take
          MAX_INTERFACES).map fun i => (i.name.text, i.rxBytes, i.txBytes) := by
  obtain ⟨snap, hsnap, hitems⟩ :=
    netReadSnapshot_items (netDevText header₁ header₂ interfaces) includeLoopback
  refine ⟨snap, hsnap, ?_⟩
  rw [hitems, netDevText, fgetsAll_table [header₁, header₂] hheader hfit, List.map_map]
  apply firstTaken_table
  · intro i _
    rw [Bool.eq_iff_iff, decide_eq_true_iff]
    exact i.netTaken_iff includeLoopback
  · intro i _
    rw [Function.comp_apply, i.netEntry_line, i.name_kept]

/-- Printed counters, with a tab in front of each. -/
def tabbed (counters : List UInt64) : List (Gap × Numeral) :=
  counters.map fun n => (⟨⟨[9], by decide⟩, by decide⟩, Numeral.printed n)

def noBlanks : Blanks := ⟨[], by decide⟩

/-- The loopback comes first, and is left out. -/
theorem net_read_snapshot_table_example :
    let loopback : Interface := ⟨⟨[32, 32], by decide⟩, ⟨ascii "lo", by decide, by decide, by decide⟩,
      by decide, by decide, tabbed [1, 2, 3, 4, 5, 6, 7, 8, 9], by decide, noBlanks⟩
    let ethernet : Interface := ⟨noBlanks, ⟨ascii "eth0", by decide, by decide, by decide⟩,
      by decide, by decide, tabbed [900, 2, 0, 0, 0, 0, 0, 0, 70, 1], by decide, ⟨[32], by decide⟩⟩
    ∃ snap, netReadSnapshot (some (netDevText (ascii "Inter-|") [] [loopback, ethernet])) false =
        some snap ∧
      snap.items.map (fun e => (e.name.bytes, e.rxBytes, e.txBytes)) = [(ascii "eth0", 900, 70)] := by
  intro loopback ethernet
  obtain ⟨snap, hsnap, hitems⟩ := net_read_snapshot_table false
    (show ∀ h ∈ [ascii "Inter-|", []], (10 : UInt8) ∉ h ∧ h.length ≤ 510 by decide)
    (show ∀ i ∈ [loopback, ethernet], i.line.text.length ≤ 510 by decide +kernel)
  exact ⟨snap, hsnap, hitems.trans (by decide +kernel)⟩

/-! ## `/proc/diskstats` -/

/-- A block device, with the blanks of its line. -/
structure BlockDevice where
  front : Blanks
  major : Word
  minor : Gap × Word
  gap : Gap
  name : Word
  short : name.text.length ≤ 31
  counters : List (Gap × Numeral)
  count : 7 ≤ counters.length
  back : Blanks

def BlockDevice.line (d : BlockDevice) : Line :=
  ⟨d.front, d.major, d.minor :: (d.gap, d.name) :: counterColumns d.counters, d.back⟩

/-- The third counter. -/
def BlockDevice.sectorsRead (d : BlockDevice) : UInt64 :=
  (d.counters.get ⟨2, by have := d.count; omega⟩).2.value

/-- The seventh counter. -/
def BlockDevice.sectorsWritten (d : BlockDevice) : UInt64 :=
  (d.counters.get ⟨6, by have := d.count; omega⟩).2.value

def diskstatsText (devices : List BlockDevice) : Bytes :=
  (devices.map fun d => d.line.text).flatMap (· ++ [10])

theorem BlockDevice.diskWords_line (d : BlockDevice) :
    diskWords (d.line.text ++ [10]) = [d.major.text, d.minor.2.text, d.name.text] ++
      (counterColumns d.counters).map fun p => p.2.text := words_read d.line

theorem BlockDevice.counters_read (d : BlockDevice) :
    counterAt (diskWords (d.line.text ++ [10])) 5 = some d.sectorsRead ∧
      counterAt (diskWords (d.line.text ++ [10])) 9 = some d.sectorsWritten := by
  have hcount := d.count
  rw [d.diskWords_line]
  exact ⟨counterAt_columns [d.major.text, d.minor.2.text, d.name.text] (k := 2) (by omega),
    counterAt_columns [d.major.text, d.minor.2.text, d.name.text] (k := 6) (by omega)⟩

theorem BlockDevice.diskTaken_iff (d : BlockDevice) :
    DiskTaken (d.line.text ++ [10]) ↔ isWholeDiskName d.name.text = true := by
  have hlen : 10 ≤ (diskWords (d.line.text ++ [10])).length := by
    have := d.count
    simp [d.diskWords_line, counterColumns]
    omega
  have hname : (diskWords (d.line.text ++ [10]))[2]? = some d.name.text := by
    rw [d.diskWords_line]
    rfl
  rw [DiskTaken, d.counters_read.1, hname]
  exact ⟨fun h => h.2.2, fun h => ⟨hlen, rfl, h⟩⟩

theorem BlockDevice.diskEntry_line (d : BlockDevice) :
    ((diskEntry (d.line.text ++ [10])).name.bytes, (diskEntry (d.line.text ++ [10])).sectorsRead,
      (diskEntry (d.line.text ++ [10])).sectorsWritten) =
        (d.name.text, d.sectorsRead, d.sectorsWritten) := by
  have hname : (diskWords (d.line.text ++ [10]))[2]? = some d.name.text := by
    rw [d.diskWords_line]
    rfl
  have hshort := d.short
  simp only [diskEntry, hname, d.counters_read, Option.getD_some]
  rw [CString.ofBytes_bytes d.name.noNul (by omega)]

/-- **`disk_read_snapshot` reads the table back**: the first 32 whole disks, each
with its third and its seventh counter. -/
theorem disk_read_snapshot_table {devices : List BlockDevice}
    (hfit : ∀ d ∈ devices, d.line.text.length ≤ 510) :
    ∃ snap, diskReadSnapshot (some (diskstatsText devices)) = some snap ∧
      snap.items.map (fun e => (e.name.bytes, e.sectorsRead, e.sectorsWritten)) =
        ((devices.filter fun d => isWholeDiskName d.name.text).take MAX_DISKS).map
          fun d => (d.name.text, d.sectorsRead, d.sectorsWritten) := by
  obtain ⟨snap, hsnap, hitems⟩ := diskReadSnapshot_items (diskstatsText devices)
  have hlines : fgetsAll 512 [] (diskstatsText devices) =
      devices.map fun d => d.line.text ++ [10] := fgetsAll_table [] (by simp) hfit
  refine ⟨snap, hsnap, ?_⟩
  rw [hitems, hlines, List.map_map]
  apply firstTaken_table
  · intro d _
    rw [Bool.eq_iff_iff, decide_eq_true_iff]
    exact d.diskTaken_iff
  · intro d _
    exact d.diskEntry_line

/-- A disk and its partition. -/
theorem disk_read_snapshot_table_example :
    let blank : Gap := ⟨⟨[32], by decide⟩, by decide⟩
    let device (name : Word) (hshort : name.text.length ≤ 31) (counters : List UInt64)
        (hcount : 7 ≤ (tabbed counters).length) : BlockDevice :=
      ⟨⟨[32, 32], by decide⟩, ⟨ascii "8", by decide, by decide, by decide⟩,
        (blank, ⟨ascii "0", by decide, by decide, by decide⟩), blank, name, hshort,
        tabbed counters, hcount, noBlanks⟩
    let disk := device ⟨ascii "sda", by decide, by decide, by decide⟩ (by decide)
      [5, 0, 40, 1, 3, 0, 24, 2] (by decide)
    let partition := device ⟨ascii "sda1", by decide, by decide, by decide⟩ (by decide)
      [4, 0, 32, 1, 3, 0, 24, 2] (by decide)
    ∃ snap, diskReadSnapshot (some (diskstatsText [disk, partition])) = some snap ∧
      snap.items.map (fun e => (e.name.bytes, e.sectorsRead, e.sectorsWritten)) =
        [(ascii "sda", 40, 24)] := by
  intro blank device disk partition
  obtain ⟨snap, hsnap, hitems⟩ := disk_read_snapshot_table
    (show ∀ d ∈ [disk, partition], d.line.text.length ≤ 510 by decide +kernel)
  exact ⟨snap, hsnap, hitems.trans (by decide +kernel)⟩

end Syswatch.DeviceTables
