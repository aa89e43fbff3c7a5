import Syswatch.CounterLines
import Syswatch.DeviceListing
import Syswatch.Lib.Scanf
import Syswatch.Queue

/-! # The disk event, from `/proc/diskstats` to JSON

The names that `is_whole_disk_name` lets through consist of letters, digits and
signs, so that the event never needs escaping; with 64-bit counters its entries
are short enough for every `snprintf` to have room. -/

namespace Syswatch.DiskEvent
open Lib.CText Lib.JsonText Lib.Scanf CounterLines EventJson DeviceListing

/-! ## The names -/

/-- The third word of a line. -/
def nameField (line : Bytes) : Option Bytes := (diskWords line)[2]?

/-- The name fields of the lines that are read have no white space in them. -/
def SpacelessNames (text : Bytes) : Prop :=
  ∀ line ∈ fgetsAll 512 [] text, ∀ name ∈ nameField line, ∀ b ∈ name, isSpace b = false

instance (text : Bytes) : Decidable (SpacelessNames text) :=
  inferInstanceAs (Decidable (∀ line ∈ fgetsAll 512 [] text, _))

/-- A letter, a digit or a sign. -/
def isNameByte (b : UInt8) : Bool := isAlpha b || isDigit b || b == 43 || b == 45

theorem nameBytes_plain : ((List.range 256).all fun n =>
    !isNameByte n.toUInt8 || decide (Plain n.toUInt8)) = true := by decide +kernel

theorem plain_of_isNameByte {b : UInt8} (h : isNameByte b = true) : Plain b := by
  have hc : b.toNat.toUInt8 = b := UInt8.ofNat_toNat
  have hall := List.all_eq_true.mp nameBytes_plain b.toNat (List.mem_range.mpr b.toNat_lt)
  rw [hc, h] at hall
  simpa using hall

/-- `%d` on a text without white space reads name bytes. -/
theorem nameBytes_of_int {s : Bytes} (h : (strtol s).converted = true)
    (hs : ∀ b ∈ s, isSpace b = false) :
    ∃ used, s = used ++ (strtol s).rest ∧ ∀ b ∈ used, isNameByte b = true := by
  obtain ⟨used, hused, hbytes⟩ := strtol_reads h
  refine ⟨used, hused, fun b hb => ?_⟩
  have hspace : isSpace b = false := hs b (by rw [hused]; exact List.mem_append_left _ hb)
  rcases hbytes b hb with hb | hb | rfl | rfl
  · rw [hspace] at hb; cases hb
  · simp [isNameByte, hb]
  · rfl
  · rfl

/-- `"%d%c"` converts once: there is nothing behind the number. -/
theorem nameBytes_of_last {s : Bytes} (h : sscanf [.int, .char] s = 1)
    (hs : ∀ b ∈ s, isSpace b = false) : ∀ b ∈ s, isNameByte b = true := by
  obtain ⟨hconverted, hrest⟩ := sscanf_int_last h
  obtain ⟨used, hused, hbytes⟩ := nameBytes_of_int hconverted hs
  rw [hrest, List.append_nil] at hused
  exact hused ▸ hbytes

theorem nameBytes_of_mmcblk {s : Bytes} (h : sscanf mmcblkFormat s = 1)
    (hs : ∀ b ∈ s, isSpace b = false) : ∀ b ∈ s, isNameByte b = true := by
  obtain ⟨rest, rfl, hrest⟩ := sscanf_chars_pos h
  rw [List.forall_mem_append] at hs ⊢
  exact ⟨by decide, nameBytes_of_last hrest hs.2⟩

theorem nameBytes_of_nvme {s : Bytes} (h : sscanf nvmeFormat s = 2)
    (hs : ∀ b ∈ s, isSpace b = false) : ∀ b ∈ s, isNameByte b = true := by
  obtain ⟨rest, rfl, hrest⟩ := sscanf_chars_pos h
  rw [List.forall_mem_append] at hs ⊢
  obtain ⟨hconverted, hrest⟩ := sscanf_int_pos hrest
  obtain ⟨used, hused, hbytes⟩ := nameBytes_of_int hconverted hs.2
  obtain ⟨last, hl, hlast⟩ := sscanf_chars_pos hrest
  rw [hused, hl, List.forall_mem_append, List.forall_mem_append] at hs ⊢
  exact ⟨by decide, hbytes, by decide, nameBytes_of_last hlast hs.2.2.2⟩

/-- A name with one of the four prefixes, and letters behind it. -/
theorem nameBytes_of_suffix {pre name : Bytes} (hpre : pre <+: name)
    (hbytes : ∀ b ∈ pre, isNameByte b = true)
    (h : isAlphaOnlySuffix (name.drop pre.length) = true) : ∀ b ∈ name, isNameByte b = true := by
  obtain ⟨rest, rfl⟩ := hpre
  rw [List.drop_left] at h
  rw [List.forall_mem_append]
  refine ⟨hbytes, fun b hb => ?_⟩
  simp [isNameByte, List.all_eq_true.mp h b hb]

theorem isWholeDiskName_bytes {name : Bytes} (h : isWholeDiskName name = true)
    (hs : ∀ b ∈ name, isSpace b = false) : ∀ b ∈ name, isNameByte b = true := by
  unfold isWholeDiskName at h
  split_ifs at h with hnil hsd hxvd hnvme hmmc
  · rcases hsd with hpre | hpre | hpre
    · exact nameBytes_of_suffix hpre (by decide) h
    · exact nameBytes_of_suffix hpre (by decide) h
    · exact nameBytes_of_suffix hpre (by decide) h
  · exact nameBytes_of_suffix hxvd (by decide) h
  · exact nameBytes_of_nvme hnvme.2 hs
  · exact nameBytes_of_mmcblk hmmc.2 hs

/-- **The name of a whole disk** needs no escaping. -/
theorem isWholeDiskName_plain {name : Bytes} (h : isWholeDiskName name = true)
    (hs : ∀ b ∈ name, isSpace b = false) : ∀ b ∈ name, Plain b := fun b hb =>
  plain_of_isNameByte (isWholeDiskName_bytes h hs b hb)

/-! ## From the text to the statistics -/

/-- The name that is recorded is the third word, or what fits of it. -/
theorem diskEntry_plain {line : Bytes} (h : DiskTaken line)
    (hs : ∀ name ∈ nameField line, ∀ b ∈ name, isSpace b = false) :
    ∀ b ∈ (diskEntry line).name.bytes, Plain b := by
  obtain ⟨-, -, hwhole⟩ := h
  cases hname : (diskWords line)[2]? with
  | none =>
    rw [hname] at hwhole
    cases hwhole
  | some name =>
    rw [hname] at hwhole
    have hplain := isWholeDiskName_plain hwhole (hs name hname)
    intro b hb
    rw [diskEntry, hname] at hb
    exact hplain b ((List.takeWhile_sublist _).mem (List.mem_of_mem_take hb))

theorem diskLines_plain {lines : List Bytes}
    (hs : ∀ line ∈ lines, ∀ name ∈ nameField line, ∀ b ∈ name, isSpace b = false) :
    ∀ c ∈ diskLines lines [], ∀ b ∈ c.name.bytes, Plain b := by
  intro c hc
  rw [diskLines_eq, List.nil_append] at hc
  obtain ⟨line, hline, rfl⟩ := List.mem_map.mp hc
  obtain ⟨hmem, htaken⟩ := taken_of_mem hline
  exact diskEntry_plain htaken (hs line hmem)

/-- The statistics `collector_thread` computes from two texts of `/proc/diskstats`. -/
def diskStats (intervalSec : Int32) (before now : Bytes) : Option DiskStats :=
  (diskReadSnapshot (some before)).bind fun prev =>
    (diskReadSnapshot (some now)).bind fun curr => diskComputeStats intervalSec prev curr

theorem diskStats_compute {intervalSec : Int32} {before now : Bytes} {stats : DiskStats}
    (h : diskStats intervalSec before now = some stats) :
    ∃ prev curr, diskComputeStats intervalSec prev curr = some stats ∧
      curr.items = diskLines (fgetsAll 512 [] now) [] := by
  simp only [diskStats, diskReadSnapshot, Option.bind_some] at h
  exact ⟨_, _, h, rfl⟩

/-- The names of the statistics come from the lines read last. -/
theorem diskStats_plain {intervalSec : Int32} (hi : 0 < intervalSec) {before now : Bytes}
    (hnames : SpacelessNames now) {stats : DiskStats}
    (h : diskStats intervalSec before now = some stats) :
    ∀ e ∈ stats.items, PlainName diskKind.rates e := by
  obtain ⟨prev, curr, hstats, hcurr⟩ := diskStats_compute h
  intro e he
  rw [diskComputeStats_averaged hi hstats, hcurr] at he
  obtain ⟨p, _, c, hc, _, rfl⟩ := diskKind.mem_averaged he
  exact diskLines_plain hnames c hc

/-! ## The steps of the loop -/

section States
variable {ρ : Type} (entryText : ρ → Bytes)

/-- The array after each `snprintf` of the loop, and before the first. -/
def loopStates : Nat → List ρ → Fill 2048 → List (Fill 2048)
  | _, [], w => [w]
  | i, e :: rest, w =>
    w :: if w.pos < 2048 - 512 then
      match if i > 0 then w.printf (ascii ",") else some w with
      | none => []
      | some w₁ => w₁ :: match w₁.printf (entryText e) with
        | none => []
        | some w₂ => loopStates (i + 1) rest w₂
    else []

/-- The last of them is what the loop leaves. -/
theorem loopStates_last (entries : List ρ) {i : Nat} {w w' : Fill 2048}
    (h : rateLoop entryText i entries w = some w') :
    (loopStates entryText i entries w).getLast? = some w' := by
  induction entries generalizing i w with
  | nil =>
    cases h
    rfl
  | cons e rest ih =>
    rw [rateLoop] at h
    rw [loopStates]
    split at h
    · rename_i hpos
      simp only [Option.bind_eq_some_iff] at h
      obtain ⟨w₁, h₁, w₂, h₂, h₃⟩ := h
      have hne : loopStates entryText (i + 1) rest w₂ ≠ [] := by cases rest <;> simp [loopStates]
      rw [if_pos hpos, h₁]
      simp only [h₂]
      rw [List.getLast?_cons_of_ne_nil (by simp), List.getLast?_cons_of_ne_nil hne]
      exact ih h₃
    · rename_i hpos
      cases h
      rw [if_neg hpos]
      rfl

/-- Short entries leave room for the closing brackets at every step. -/
theorem loopStates_room (entries : List ρ) {i : Nat} {w : Fill 2048} (hw : w.Whole)
    (hroom : w.pos + 3 < 2048) (hsize : ∀ e ∈ entries, (entryText e).length < 500) :
    ∀ w' ∈ loopStates entryText i entries w, w'.Whole ∧ w'.pos + 3 < 2048 := by
  induction entries generalizing i w with
  | nil => simpa [loopStates] using ⟨hw, hroom⟩
  | cons e rest ih =>
    rw [loopStates, List.forall_mem_cons]
    refine ⟨⟨hw, hroom⟩, ?_⟩
    by_cases hpos : w.pos < 2048 - 512
    · have he := hsize e (by simp)
      have hp := hw.1
      obtain ⟨w₁, h₁, hw₁, ht₁⟩ : ∃ w₁, (if i > 0 then w.printf (ascii ",") else some w) = some w₁ ∧
          w₁.Whole ∧ w₁.text.length ≤ w.text.length + 1 := by
        by_cases hi : i > 0
        · obtain ⟨w₁, h₁, hw₁, ht₁⟩ := hw.printf_next (s := ascii ",") (by
            rw [show (ascii ",").length = 1 from rfl]; omega)
          exact ⟨w₁, by rw [if_pos hi, h₁], hw₁, by rw [ht₁, List.length_append]; exact le_rfl⟩
        · exact ⟨w, by rw [if_neg hi], hw, Nat.le_succ _⟩
      obtain ⟨w₂, h₂, hw₂, ht₂⟩ := hw₁.printf_next (s := entryText e) (by omega)
      have hroom₁ : w₁.pos + 3 < 2048 := by rw [hw₁.1]; omega
      have hroom₂ : w₂.pos + 3 < 2048 := by rw [hw₂.1, ht₂, List.length_append]; omega
      rw [if_pos hpos, h₁]
      simp only [h₂, List.forall_mem_cons]
      exact ⟨⟨hw₁, hroom₁⟩, ih hw₂ hroom₂ fun e' h' => hsize e' (by simp [h'])⟩
    · rw [if_neg hpos]
      simp

/-- The states of the array while an event is built, less the closing brackets. -/
def eventStates (start : Bytes) (entries : List ρ) : List (Fill 2048) :=
  match (Fill.start 2048).printf start with
  | none => []
  | some w => loopStates entryText 0 entries w

/-- The event is what the last of them holds, and the brackets. -/
theorem rateEventText_states {start : Bytes} {entries : List ρ} {text : Bytes}
    (h : rateEventText start entryText entries = some text) :
    ∃ w w', (eventStates entryText start entries).getLast? = some w ∧
      w.printf (ascii "]\x7d\x7d") = some w' ∧ w'.text = text := by
  simp only [rateEventText, Option.bind_eq_bind, Option.bind_eq_some_iff] at h
  obtain ⟨w₁, h₁, w₂, h₂, w₃, h₃, heq⟩ := h
  refine ⟨w₂, w₃, ?_, h₃, by simpa using heq⟩
  simp only [eventStates, h₁]
  exact loopStates_last entryText entries h₂

theorem eventStates_room {start : Bytes} (hstart : start.length + 3 < 2048) {entries : List ρ}
    (hsize : ∀ e ∈ entries, (entryText e).length < 500) :
    ∀ w ∈ eventStates entryText start entries, w.Whole ∧ w.pos + 3 < 2048 := by
  have h0 : (Fill.start 2048).Whole := ⟨rfl, by decide⟩
  obtain ⟨w, hw, hwhole, ht⟩ := h0.printf_next (s := start) (by simp [Fill.start]; omega)
  rw [show (Fill.start 2048).text = [] from rfl, List.nil_append] at ht
  simp only [eventStates, hw]
  exact loopStates_room entryText entries hwhole (by rw [hwhole.1, ht]; exact hstart) hsize

end States

/-! ## The event -/

/-- The states of `json` while the disk event is built. -/
def diskStates (st : Stamp) (stats : DiskStats) : List (Fill 2048) :=
  eventStates diskEntryText (eventStart st .disk (ascii "disks")) stats.items

/-- **The disk event is complete.** At every step nothing has been truncated
and the closing brackets still fit; the text is one JSON object on one line with
the first disks of the statistics, under their own names, and the queue takes it. -/
theorem disk_event_complete {intervalSec : Int32} (hi : 1 ≤ intervalSec) {before now : Bytes}
    (hnames : SpacelessNames now) {stats : DiskStats}
    (hstats : diskStats intervalSec before now = some stats) {st : Stamp}
    (hhost : EscapedText st.host.bytes) (hts : ∀ b ∈ st.timestamp.bytes, Plain b) :
    (∀ w ∈ diskStates st stats, w.Whole ∧ w.pos + 3 < 2048) ∧
      ∃ w text n, (diskStates st stats).getLast? = some w ∧ text = w.text ++ ascii "]\x7d\x7d" ∧
        (Event.disk stats).json st = some text ∧
        ValidEvent (ascii "disks") text ((stats.items.take n).map fun e => e.name.bytes) ∧
        Accepted text := by
  obtain ⟨prev, curr, hcompute, _⟩ := diskStats_compute hstats
  have hpos := interval_pos hi
  have hsize := diskEntries_short hpos hcompute
  have hstart : (eventStart st .disk (ascii "disks")).length + 3 < 2048 := by
    have := header_length st .disk
    have hkey : (ascii "disks").length = 5 := rfl
    simp only [eventStart, List.length_append, List.length_cons, List.length_nil]
    omega
  have hroom := eventStates_room diskEntryText hstart hsize
  obtain ⟨n, _, hjson, _⟩ := @rateEvent_lists _ diskEntryText st .disk (ascii "disks") (by decide)
    _ hsize
  -- the brackets are printed whole behind the last state
  obtain ⟨w, w', hlast, hprint, htext⟩ := rateEventText_states diskEntryText hjson
  have hwhole := hroom w (List.mem_of_getLast? hlast)
  obtain ⟨w'', hprint', _, htext'⟩ := hwhole.1.printf_next (s := ascii "]\x7d\x7d") (by
    rw [← hwhole.1.1]; exact hwhole.2)
  rw [hprint, Option.some.injEq] at hprint'
  subst hprint'
  -- the entries listed are plain
  have hmem : ∀ e ∈ stats.items.take n, e ∈ stats.items := fun e he => List.mem_of_mem_take he
  have hplain : ∀ e ∈ stats.items.take n, PlainName diskKind.rates e := fun e he =>
    diskStats_plain hpos hnames hstats e (hmem e he)
  have hrates : ∀ e ∈ stats.items.take n, Unsigned diskKind.rates e := fun e he =>
    have hbounds := diskComputeStats_rates hpos hcompute e (hmem e he)
    ⟨hbounds.1.1, hbounds.2.1⟩
  obtain ⟨⟨host, hdec⟩, hprintable⟩ := hhost.spec
  have hvalid := validEvent_of_plain ⟨hts, hdec⟩ hprintable .disk
    (show ∀ b ∈ ascii "disks", Plain b by decide)
    (show ∀ b ∈ (114 : UInt8) :: ascii "ead_bps", Plain b by decide)
    (show ∀ b ∈ ascii "write_bps", Plain b by decide) hplain hrates
  exact ⟨hroom, w, _, n, hlast, by rw [← htext, htext'], hjson, hvalid,
    (accepted_iff _).mpr (Event.json_length (e := .disk stats) hjson)⟩

/-- A disk with a partition. -/
def sampleDiskstats (sectors : Nat) : Bytes :=
  ascii "   8       0 sda 100 0 " ++ decimal sectors ++ ascii " 5 50 0 64 7 0 9 12\n" ++
    ascii "   8       1 sda1 100 0 " ++ decimal sectors ++ ascii " 5 50 0 64 7 0 9 12\n"

def sampleDiskStats : DiskStats where
  items := [⟨CString.ofBytes 32 (ascii "sda"), 512 * 1000, 0⟩]
  bound := by decide

theorem disk_event_complete_example :
    (∀ w ∈ diskStates sampleStamp sampleDiskStats, w.Whole ∧ w.pos + 3 < 2048) ∧
      ∃ w text n, (diskStates sampleStamp sampleDiskStats).getLast? = some w ∧
        text = w.text ++ ascii "]\x7d\x7d" ∧
        (Event.disk sampleDiskStats).json sampleStamp = some text ∧
        ValidEvent (ascii "disks") text ((sampleDiskStats.items.take n).map fun e => e.name.bytes) ∧
        Accepted text :=
  @disk_event_complete 2 (by decide) (sampleDiskstats 4000) (sampleDiskstats 6000)
    (by decide +kernel) sampleDiskStats (by decide +kernel) sampleStamp
    ⟨some (ascii "myhost"), 256, by decide, by decide +kernel⟩ (by decide +kernel)

end Syswatch.DiskEvent
