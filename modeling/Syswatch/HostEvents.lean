import Syswatch.ProcFiles
import Syswatch.ProcessCollector
import Syswatch.Timestamp

/-! # From the host to the queue

Where the collector's inputs come from: the clock, the name of the host, and the files
of a kernel. The accepted events then say what the kernel counted, and when and where. -/

namespace Syswatch.HostEvents
open Lib Lib.CText Lib.Machine Lib.PyBytes Unicode Process ProcessCollector CollectorGrammar
open EventValues QueuedTexts ProcFiles Timestamp
open JsonText (Plain quoted utf8)

/-! ## The name of the host -/

/-- What `json_escape_string` writes for a character. -/
def hostChar (n : Nat) : Text :=
  if 32 ≤ n ∧ n ≠ 34 ∧ n ≠ 92 then [n] else PyDumps.escapedChar n

theorem hostChar_ascii : ∀ n : Fin 128, (∀ c ∈ hostChar n, c < 0x80) ∧
    (hostChar n).flatMap utf8 = (utf8 n).flatMap escaped := by decide +kernel

theorem hostChar_bytes {n : Nat} (hn : n < 0x110000) :
    Unicode.Encodable (hostChar n) ∧ (hostChar n).flatMap utf8 = (utf8 n).flatMap escaped := by
  by_cases hlow : n < 0x80
  · obtain ⟨hchars, hbytes⟩ := hostChar_ascii ⟨n, hlow⟩
    exact ⟨fun c hc => (hchars c hc).trans (by decide), hbytes⟩
  · have hchar : hostChar n = [n] := if_pos ⟨by omega, by omega, by omega⟩
    rw [hchar, List.flatMap_singleton, EscapeUtf8.escaped_flatMap_high (utf8_high (by omega) hn)]
    exact ⟨List.forall_mem_singleton.mpr hn, rfl⟩

theorem stringText_host {text : Text} (henc : Unicode.Encodable text) :
    PyJson.StringText (text.flatMap hostChar) text := by
  induction text with
  | nil => exact PyDumps.stringText_nil
  | cons n text ih =>
    have hrest := ih (List.forall_mem_cons.mp henc).2
    rw [List.flatMap_cons, hostChar]
    split_ifs with hplain
    · exact PyDumps.stringText_plain hplain hrest
    · refine PyDumps.stringText_escapedChar (henc n List.mem_cons_self) hrest fun hhigh => ?_
      unfold PyDumps.IsHigh at hhigh
      omega

/-- An escaped name is read as its characters. -/
theorem spells_escaped {text : Text} (henc : Unicode.Encodable text) :
    Spells (quoted ((text.flatMap utf8).flatMap escaped)) (.str text) := by
  have hall : Unicode.Encodable (text.flatMap hostChar) ∧
      JsonUtf8.bytes (text.flatMap hostChar) = (text.flatMap utf8).flatMap escaped := by
    rw [JsonUtf8.bytes, List.flatMap_assoc, List.flatMap_assoc]
    refine ⟨fun c hc => ?_, List.flatMap_congr fun n hn => (hostChar_bytes (henc n hn)).2⟩
    obtain ⟨n, hn, hc⟩ := List.mem_flatMap.mp hc
    exact (hostChar_bytes (henc n hn)).1 c hc
  rw [← hall.2]
  exact spells_string hall.1 (stringText_host henc)

/-- A name that fits is escaped to its end. -/
theorem jsonEscapeString_fits {name : Bytes} {n : Nat} (h0 : (0 : UInt8) ∉ name)
    (h : (name.flatMap escaped).length < n) : jsonEscapeString (some name) n = name.flatMap escaped := by
  obtain ⟨p, rest, hsplit, he, hlen, hnext⟩ :=
    escapeLoop_stops (n := n) (cstr name) (show ([] : Bytes).length < n from Nat.zero_lt_of_lt h)
  rw [List.nil_append] at he hlen hnext
  rw [cstr_of_noNul h0] at hsplit
  rw [jsonEscapeString, he]
  cases rest with
  | nil => rw [hsplit, List.append_nil]
  | cons c rest =>
    have hfull := hnext c rfl
    rw [hsplit, List.flatMap_append, List.flatMap_cons, List.length_append, List.length_append] at h
    omega

/-! ## The stamp -/

/-- What a stamp is made from: the time on the clock, the arrays of `format_rfc3339` as
they are when it is called, and what `gethostname` gives; and what this time and this
name are. -/
structure Moment where
  ts : Timespec
  localtime : Int → Option Tm
  isoBuf : Buffer 32
  tzBuf : Buffer 16
  rfcTs : Buffer 64
  hostname : Option Bytes
  tm : Tm
  offset : Offset
  name : Text

/-- `rfc_ts` and `host_json`. -/
def Moment.stamp (cfg : SyswatchConfig) (m : Moment) : Option Stamp :=
  ((formatRfc3339 m.localtime m.isoBuf m.tzBuf (some m.ts) m.rfcTs).bind Buffer.string?).map fun text =>
    ⟨CString.ofBytes 64 text, resolveEventHost cfg m.hostname 256⟩

/-- `YYYY-MM-DDTHH:MM:SS.mmm+HH:MM`. -/
def Moment.text (m : Moment) : Bytes := rfc3339Text m.tm m.offset m.ts.tvNsec

/-- A year of four digits, with NUL where the terminator of the offset is read; and a
name in UTF-8 that fits once it is escaped. -/
structure Moment.Ordinary (cfg : SyswatchConfig) (m : Moment) : Prop where
  time : m.localtime m.ts.tvSec = some m.tm
  normal : m.tm.Normal
  zone : m.tm.zone = m.offset.zone
  nsec : 0 ≤ m.ts.tvNsec ∧ m.ts.tvNsec < 10 ^ 9
  cleared : m.tzBuf.bytes[6]? = some 0
  valid : ∀ c ∈ m.name, c.isValidChar
  host : (hostBuffer cfg m.hostname).bytes = m.name.flatMap utf8
  fits : ((m.name.flatMap utf8).flatMap escaped).length < 256

/-- The stamp says when and where. -/
structure Moment.Tells (m : Moment) (st : Stamp) : Prop where
  timestamp : st.timestamp.bytes = m.text
  host : hostText st = m.name
  clean : CleanStamp st

variable {cfg : SyswatchConfig} {m : Moment}

theorem ascii_of_isDigit {b : UInt8} (h : isDigit b = true) : b < 0x80 := by
  simp only [CText.isDigit, Bool.and_eq_true, decide_eq_true_eq] at h
  exact UInt8.lt_of_le_of_lt h.2 (by decide)

theorem offset_ascii (o : Offset) : ∀ b ∈ o.text, b < 0x80 := by
  obtain ⟨h₁, h₂, m₁, m₂⟩ := o.digits
  have hsign : o.sign < 0x80 := by rcases o.signed with h | h <;> rw [h] <;> decide
  simp only [Offset.text, List.forall_mem_cons]
  exact ⟨hsign, ascii_of_isDigit h₁, ascii_of_isDigit h₂, by decide, ascii_of_isDigit m₁, ascii_of_isDigit m₂,
    List.forall_mem_nil _⟩

theorem rfc3339Text_ascii (tm : Tm) (o : Offset) (tvNsec : Int) : ∀ b ∈ rfc3339Text tm o tvNsec, b < 0x80 := by
  have hpadded (width n : Nat) : ∀ b ∈ zeroPadded width n, b < 0x80 := fun b hb =>
    ascii_of_isDigit (zeroPadded_digits width n b hb)
  have hyear : ∀ b ∈ (if tm.year < 0 then ascii "-" else []), b < 0x80 := by split_ifs <;> decide
  have hliteral : (∀ b ∈ ascii "-", b < 0x80) ∧ (∀ b ∈ ascii "T", b < 0x80) ∧ (∀ b ∈ ascii ":", b < 0x80) ∧
      ∀ b ∈ ascii ".", b < 0x80 := by decide
  simp only [rfc3339Text, isoText, List.forall_mem_append, and_assoc]
  exact ⟨hyear, fun b hb => ascii_of_isDigit (isDigit_of_mem_decimal hb), hliteral.1, hpadded _ _, hliteral.1,
    hpadded _ _, hliteral.2.1, hpadded _ _, hliteral.2.2.1, hpadded _ _, hliteral.2.2.1, hpadded _ _,
    hliteral.2.2.2, hpadded _ _, offset_ascii o⟩

theorem Moment.Ordinary.shape (h : m.Ordinary cfg) : m.text.length = 29 ∧ ∀ b ∈ m.text, Plain b ∧ b < 0x80 := by
  obtain ⟨hlen, hshape⟩ := rfc3339Text_spec h.normal m.offset h.nsec
  exact ⟨hlen, fun b hb => ⟨hshape.plain b hb, rfc3339Text_ascii _ _ _ b hb⟩⟩

theorem Moment.Ordinary.noNul (h : m.Ordinary cfg) : (0 : UInt8) ∉ m.text := fun h0 =>
  absurd (h.shape.2 0 h0).1.1 (by decide)

/-- The time is written as RFC 3339 has it. -/
theorem Moment.Ordinary.timestamp (h : m.Ordinary cfg) :
    (formatRfc3339 m.localtime m.isoBuf m.tzBuf (some m.ts) m.rfcTs).bind Buffer.string? = some m.text := by
  have hlen := h.shape.1
  obtain ⟨b, hb, hwritten⟩ := Buffer.write_start m.rfcTs (show (m.text ++ [0]).length ≤ 64 by simp [hlen])
  rw [((format_rfc3339_iff m.localtime h.time h.normal h.zone h.nsec m.isoBuf m.tzBuf m.rfcTs).2).mpr h.cleared]
  change (m.rfcTs.write 0 (m.text ++ [0])).bind Buffer.string? = some m.text
  rw [hb, Option.bind_some]
  exact Buffer.string?_of_bytes h.noNul (by rw [hwritten, List.append_assoc]; rfl)

theorem Moment.Ordinary.tells (h : m.Ordinary cfg) {st : Stamp} (hst : m.stamp cfg = some st) : m.Tells st := by
  rw [Moment.stamp, h.timestamp, Option.map_some, Option.some.injEq] at hst
  have htime : st.timestamp.bytes = m.text := by
    rw [← hst]
    exact CString.ofBytes_bytes h.noNul (by rw [h.shape.1]; decide)
  have hescaped : st.host.bytes = jsonEscapeString (some (hostBuffer cfg m.hostname).bytes) 256 := by
    rw [← hst]
    rfl
  have hhost : st.host.bytes = (m.name.flatMap utf8).flatMap escaped := by
    rw [hescaped, ← h.host]
    exact jsonEscapeString_fits (hostBuffer cfg m.hostname).noNul (h.host ▸ h.fits)
  have hspells := spells_escaped fun c hc => isValidChar_lt (h.valid c hc)
  rw [← hhost] at hspells
  have hquoted : (0 : UInt8) ∉ quoted st.host.bytes := by
    simp only [quoted, List.mem_cons, List.mem_append, not_or]
    exact ⟨by decide, st.host.noNul, by decide, List.not_mem_nil⟩
  refine ⟨htime, ?_, .of_escaped (hostBuffer cfg m.hostname).noNul ?_ ?_ hescaped (htime ▸ h.shape.2)⟩
  · rw [hostText, hspells.loads hquoted (by simp [quoted])]
  · exact ⟨m.name, h.valid, h.host⟩
  · exact not_cut_of_fits (by rw [h.host]; exact Nat.le_of_lt_succ h.fits)

/-! ## The names of the devices -/

theorem nameBytes_ascii : ((List.range 256).all fun n =>
    !DiskEvent.isNameByte n.toUInt8 || decide (n.toUInt8 < 0x80)) = true := by decide +kernel

theorem ascii_of_isNameByte {b : UInt8} (h : DiskEvent.isNameByte b = true) : b < 0x80 := by
  have hc : b.toNat.toUInt8 = b := UInt8.ofNat_toNat
  have hall := List.all_eq_true.mp nameBytes_ascii b.toNat (List.mem_range.mpr b.toNat_lt)
  rw [hc, h] at hall
  simpa using hall

/-- The name of a whole disk stands in an event as it is. -/
theorem diskCounter_clean {d : DeviceTables.BlockDevice} (h : isWholeDiskName d.name.text = true) :
    CleanName (ProcFiles.diskCounter d).name.bytes := by
  have hbytes : (ProcFiles.diskCounter d).name.bytes = d.name.text :=
    CString.ofBytes_bytes d.name.noNul (Nat.lt_succ_of_le d.short)
  have hname := DiskEvent.isWholeDiskName_bytes h d.name.noSpace
  rw [hbytes]
  exact ⟨DiskEvent.isWholeDiskName_plain h d.name.noSpace, utf8_of_ascii fun b hb => ascii_of_isNameByte (hname b hb)⟩

/-- A kernel as Linux has them, whose interfaces have names that need no escaping. -/
structure OrdinaryKernel (k : Kernel) : Prop where
  permitted : k.Permitted
  names : ∀ i ∈ k.interfaces, CleanName i.name

theorem OrdinaryKernel.cleanReads {k : Kernel} (h : OrdinaryKernel k) (cfg : SyswatchConfig) :
    CleanReads (k.reads cfg) := by
  constructor
  · rintro snapshot ⟨⟩ c hc
    obtain ⟨d, hd, rfl⟩ := List.mem_map.mp hc
    exact diskCounter_clean (List.mem_filter.mp (List.mem_of_mem_take hd)).2
  · rintro snapshot ⟨⟩ c hc
    obtain ⟨i, hi, rfl⟩ := List.mem_map.mp (List.mem_of_mem_take hc)
    have hi := (List.mem_filter.mp hi).1
    rw [ProcNetDev.counter_name (h.permitted.interfaces i hi)]
    exact h.names i hi

/-! ## Every run -/

/-- The run takes its stamps at these moments, and its reads from the files of the kernel
in these states; what the variables of `cpu_read_snapshot` held is anything. -/
structure Provided (cfg : SyswatchConfig) (moments : List Moment) (kernels : List Kernel)
    (labels : List Label) : Prop where
  stamps : List.Forall₂ (fun m st => m.stamp cfg = some st) moments (stampsIn labels)
  reads : List.Forall₂ (fun k r => ∃ parsed, r = readFiles cfg parsed k.files) kernels (readsIn labels)

section Runs
variable {moments : List Moment} {kernels : List Kernel} {labels : List Label}

theorem mem_stampsIn {l : Label} {i : CollectorInput} {st : Stamp} (hl : l ∈ labels)
    (hi : collectorInput l = some i) (hst : st ∈ stampsOf i) : st ∈ stampsIn labels :=
  List.mem_flatMap.mpr ⟨i, List.mem_filterMap.mpr ⟨l, hl, hi⟩, hst⟩

theorem mem_readsIn {l : Label} {i : CollectorInput} {r : Reads} (hl : l ∈ labels)
    (hi : collectorInput l = some i) (hr : r ∈ readsOf i) : r ∈ readsIn labels :=
  List.mem_flatMap.mpr ⟨i, List.mem_filterMap.mpr ⟨l, hl, hi⟩, hr⟩

theorem Provided.tells (h : Provided cfg moments kernels labels) (hm : ∀ m ∈ moments, m.Ordinary cfg) :
    List.Forall₂ Moment.Tells moments (stampsIn labels) :=
  ((List.forall₂_and_left _ _).mpr ⟨hm, h.stamps⟩).imp fun _ _ ⟨hm, hst⟩ => hm.tells hst

theorem Provided.readsIn (h : Provided cfg moments kernels labels) (hk : ∀ k ∈ kernels, OrdinaryKernel k) :
    ProcessCollector.readsIn labels = kernels.map (Kernel.reads cfg) := by
  refine (List.forall₂_eq_eq_eq ▸ List.forall₂_map_left_iff.mpr ?_ : _ = _).symm
  refine ((List.forall₂_and_left _ _).mpr ⟨hk, h.reads⟩).imp fun k r ⟨hk, parsed, hr⟩ => ?_
  rw [hr, readFiles_files hk.permitted]

theorem Provided.clean (h : Provided cfg moments kernels labels) (hm : ∀ m ∈ moments, m.Ordinary cfg)
    (hk : ∀ k ∈ kernels, OrdinaryKernel k) : ∀ l ∈ labels, CleanLabel l := by
  have hstamps : ∀ st ∈ stampsIn labels, CleanStamp st := by
    have htold := (h.tells hm).flip.imp fun st m ht => (⟨ht.clean, ht⟩ : CleanStamp st ∧ m.Tells st)
    exact ((List.forall₂_and_left _ _).mp htold).1
  have hreads : ∀ r ∈ ProcessCollector.readsIn labels, CleanReads r := by
    rw [h.readsIn hk, List.forall_mem_map]
    exact fun k hmem => (hk k hmem).cleanReads cfg
  intro l hl
  cases l with
  | collector i now =>
    cases i with
    | stamp st => exact hstamps st (mem_stampsIn hl rfl List.mem_cons_self)
    | sample r st =>
      exact ⟨hreads r (mem_readsIn hl rfl List.mem_cons_self), hstamps st (mem_stampsIn hl rfl List.mem_cons_self)⟩
    | _ => trivial
  | _ => trivial

end Runs

end Syswatch.HostEvents
