import Syswatch.Disk
import Syswatch.Lib.Scanf

/-! # Disks and their partitions

The kernel names a partition after its disk: the number follows directly where
the name of the disk ends in a letter, and behind a `p` where it ends in a digit. -/

namespace Syswatch.DiskPartitions
open Lib.CText Lib.Scanf

/-- The last byte of a name is of a kind. -/
def EndsIn (kind : UInt8 → Bool) (name : Bytes) : Prop := ∃ b, name.getLast? = some b ∧ kind b = true

/-- Letters behind one of the four prefixes. -/
structure Lettered (name : Bytes) : Prop where
  letters : ∀ b ∈ name, isAlpha b = true
  first : ∃ b ∈ [115, 104, 118, 120], name.head? = some b

/-- `"nvme%dn%d"` and nothing behind it. -/
structure Nvme (name : Bytes) : Prop where
  start : ascii "nvme" <+: name
  converted : sscanf nvmeFormat name = 2

/-- `"mmcblk%d"` and nothing behind it. -/
structure Mmcblk (name : Bytes) : Prop where
  start : ascii "mmcblk" <+: name
  converted : sscanf mmcblkFormat name = 1

theorem lettered_of_suffix {pre name : Bytes} (hpre : pre <+: name)
    (hletters : ∀ b ∈ pre, isAlpha b = true)
    (hfirst : ∃ b ∈ [115, 104, 118, 120], pre.head? = some b)
    (h : isAlphaOnlySuffix (name.drop pre.length) = true) : Lettered name := by
  obtain ⟨rest, rfl⟩ := hpre
  rw [List.drop_left] at h
  constructor
  · rw [List.forall_mem_append]
    exact ⟨hletters, List.all_eq_true.mp h⟩
  · obtain ⟨b, hb, hhead⟩ := hfirst
    exact ⟨b, hb, by rw [List.head?_append, hhead]; rfl⟩

/-- The names that are taken for a disk. -/
theorem whole_disk_cases {name : Bytes} (h : isWholeDiskName name = true) :
    Lettered name ∨ Nvme name ∨ Mmcblk name := by
  unfold isWholeDiskName at h
  split_ifs at h with hnil hsd hxvd hnvme hmmcblk
  · rcases hsd with hpre | hpre | hpre
    · exact .inl (lettered_of_suffix hpre (by decide) (by decide) h)
    · exact .inl (lettered_of_suffix hpre (by decide) (by decide) h)
    · exact .inl (lettered_of_suffix hpre (by decide) (by decide) h)
  · exact .inl (lettered_of_suffix hxvd (by decide) (by decide) h)
  · exact .inr (.inl ⟨hnvme.1, hnvme.2⟩)
  · exact .inr (.inr ⟨hmmcblk.1, hmmcblk.2⟩)

/-! ## The last byte -/

theorem Lettered.endsIn {name : Bytes} (h : Lettered name) : EndsIn isAlpha name := by
  obtain ⟨b, -, hhead⟩ := h.first
  have hne : name ≠ [] := by
    rintro rfl
    cases hhead
  exact ⟨name.getLast hne, List.getLast?_eq_some_getLast hne, h.letters _ (List.getLast_mem hne)⟩

theorem EndsIn.append {kind : UInt8 → Bool} {s : Bytes} (h : EndsIn kind s) (front : Bytes) :
    EndsIn kind (front ++ s) := by
  obtain ⟨b, hlast, hb⟩ := h
  exact ⟨b, by rw [List.getLast?_append, hlast]; rfl, hb⟩

theorem endsIn_of_int_last {s : Bytes} (h : sscanf [.int, .char] s = 1) : EndsIn isDigit s := by
  obtain ⟨hconverted, hrest⟩ := sscanf_int_last h
  exact last_of_int hconverted hrest

theorem Mmcblk.split {name : Bytes} (h : Mmcblk name) :
    ∃ s, name = ascii "mmcblk" ++ s ∧ sscanf [.int, .char] s = 1 := sscanf_chars_pos h.converted

theorem Nvme.split {name : Bytes} (h : Nvme name) :
    ∃ s s', name = ascii "nvme" ++ s ∧ (strtol s).converted = true ∧
      (strtol s).rest = ascii "n" ++ s' ∧ sscanf [.int, .char] s' = 1 := by
  obtain ⟨s, hname, hs⟩ := sscanf_chars_pos h.converted
  obtain ⟨hconverted, hrest⟩ := sscanf_int_pos hs
  obtain ⟨s', hs', hlast⟩ := sscanf_chars_pos hrest
  exact ⟨s, s', hname, hconverted, hs', hlast⟩

theorem Mmcblk.endsIn {name : Bytes} (h : Mmcblk name) : EndsIn isDigit name := by
  obtain ⟨s, rfl, hs⟩ := h.split
  exact (endsIn_of_int_last hs).append _

theorem Nvme.endsIn {name : Bytes} (h : Nvme name) : EndsIn isDigit name := by
  obtain ⟨s, s', rfl, hconverted, hrest, hs'⟩ := h.split
  obtain ⟨used, hused, -⟩ := strtol_reads hconverted
  rw [hused, hrest]
  exact (((endsIn_of_int_last hs').append _).append _).append _

theorem not_isDigit_of_isAlpha {b : UInt8} (h : isAlpha b = true) : isDigit b = false := by
  simp only [isAlpha, Bool.or_eq_true, Bool.and_eq_true, decide_eq_true_eq, UInt8.le_iff_toNat_le] at h
  simp only [isDigit, Bool.and_eq_false_iff, decide_eq_false_iff_not, UInt8.le_iff_toNat_le]
  simp at h ⊢
  omega

theorem EndsIn.not_digit {name : Bytes} (h : EndsIn isAlpha name) : ¬ EndsIn isDigit name := by
  rintro ⟨c, hc, hdigit⟩
  obtain ⟨b, hb, hletter⟩ := h
  rw [hb, Option.some.injEq] at hc
  subst hc
  rw [not_isDigit_of_isAlpha hletter] at hdigit
  cases hdigit

/-! ## The partitions -/

/-! The three kinds of names differ in their first letter. -/

theorem head_append {name : Bytes} {b : UInt8} (h : name.head? = some b) (t : Bytes) :
    (name ++ t).head? = some b := by
  rw [List.head?_append, h]
  rfl

theorem head_of_start {pre name : Bytes} {b : UInt8} (hpre : pre <+: name)
    (h : pre.head? = some b) : name.head? = some b := by
  obtain ⟨rest, rfl⟩ := hpre
  exact head_append h rest

theorem Nvme.first {name : Bytes} (h : Nvme name) : name.head? = some 110 := head_of_start h.start rfl

theorem Mmcblk.first {name : Bytes} (h : Mmcblk name) : name.head? = some 109 :=
  head_of_start h.start rfl

theorem Lettered.first_mem {name s : Bytes} (h : Lettered name) (hs : name <+: s) {b : UInt8}
    (hb : s.head? = some b) : b ∈ [115, 104, 118, 120] := by
  obtain ⟨c, hc, hhead⟩ := h.first
  rw [head_of_start hs hhead] at hb
  cases hb
  exact hc

/-- A digit behind the letters is a partition. -/
theorem Lettered.not_whole {name t : Bytes} (h : Lettered name) (ht : ∃ b ∈ t, isDigit b = true) :
    isWholeDiskName (name ++ t) = false := by
  obtain ⟨b, hb, hdigit⟩ := ht
  by_contra hwhole
  rw [Bool.not_eq_false] at hwhole
  rcases whole_disk_cases hwhole with hlettered | hnvme | hmmcblk
  · rw [not_isDigit_of_isAlpha (hlettered.letters b (List.mem_append_right _ hb))] at hdigit
    cases hdigit
  · exact absurd (h.first_mem (List.prefix_append _ _) hnvme.first) (by decide)
  · exact absurd (h.first_mem (List.prefix_append _ _) hmmcblk.first) (by decide)

/-- Whatever follows the number is one conversion more than a disk has. -/
theorem Nvme.not_whole {name t : Bytes} (h : Nvme name) (hne : t ≠ [])
    (ht : ∀ b ∈ t.head?, isDigit b = false) : isWholeDiskName (name ++ t) = false := by
  have hfirst : (name ++ t).head? = some 110 := head_append h.first t
  by_contra hwhole
  rw [Bool.not_eq_false] at hwhole
  rcases whole_disk_cases hwhole with hlettered | hnvme | hmmcblk
  · exact absurd (hlettered.first_mem List.prefix_rfl hfirst) (by decide)
  · obtain ⟨s, s', rfl, hconverted, hrest, hs'⟩ := h.split
    have hcount := hnvme.converted
    rw [nvmeFormat, List.append_assoc, sscanf_chars_append, sscanf_int_append hconverted ht, hrest,
      List.append_assoc, sscanf_chars_append, sscanf_int_last_append hs' hne ht] at hcount
    cases hcount
  · rw [hmmcblk.first] at hfirst
    cases hfirst

theorem Mmcblk.not_whole {name t : Bytes} (h : Mmcblk name) (hne : t ≠ [])
    (ht : ∀ b ∈ t.head?, isDigit b = false) : isWholeDiskName (name ++ t) = false := by
  have hfirst : (name ++ t).head? = some 109 := head_append h.first t
  by_contra hwhole
  rw [Bool.not_eq_false] at hwhole
  rcases whole_disk_cases hwhole with hlettered | hnvme | hmmcblk
  · exact absurd (hlettered.first_mem List.prefix_rfl hfirst) (by decide)
  · rw [hnvme.first] at hfirst
    cases hfirst
  · obtain ⟨s, rfl, hs⟩ := h.split
    have hcount := hmmcblk.converted
    rw [mmcblkFormat, List.append_assoc, sscanf_chars_append, sscanf_int_last_append hs hne ht]
      at hcount
    cases hcount

/-- **A partition is not a disk**: its kernel name is refused wherever that of
the disk is accepted. -/
theorem partition_not_whole {w : Bytes} (h : isWholeDiskName w = true) (k : Nat) :
    (EndsIn isAlpha w ∨ EndsIn isDigit w) ∧
      (EndsIn isAlpha w → isWholeDiskName (w ++ decimal k) = false) ∧
      (EndsIn isDigit w → isWholeDiskName (w ++ 112 :: decimal k) = false) := by
  have hp : ∀ b ∈ (112 :: decimal k).head?, isDigit b = false := by
    rintro b ⟨⟩
    rfl
  rcases whole_disk_cases h with hlettered | hnvme | hmmcblk
  · have hdigit : ∃ b ∈ decimal k, isDigit b = true :=
      List.exists_mem_of_ne_nil _ (decimal_ne_nil k) |>.imp fun b hb => ⟨hb, isDigit_of_mem_decimal hb⟩
    exact ⟨.inl hlettered.endsIn, fun _ => hlettered.not_whole hdigit,
      fun hend => absurd hend hlettered.endsIn.not_digit⟩
  · exact ⟨.inr hnvme.endsIn, fun hend => absurd hnvme.endsIn hend.not_digit,
      fun _ => hnvme.not_whole (by simp) hp⟩
  · exact ⟨.inr hmmcblk.endsIn, fun hend => absurd hmmcblk.endsIn hend.not_digit,
      fun _ => hmmcblk.not_whole (by simp) hp⟩

/-- `nvme0n1` and its second partition. -/
theorem partition_not_whole_example : isWholeDiskName (ascii "nvme0n1p2") = false :=
  (partition_not_whole (w := ascii "nvme0n1") (by decide) 2).2.2 ⟨49, by decide, by decide⟩

end Syswatch.DiskPartitions
