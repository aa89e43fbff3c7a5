import Syswatch.ConfigText

/-! # The loader goes from line to line

A line of the file may reach the loader in several pieces, but no piece holds
text of two lines. What a file says is therefore the sequence of what its lines
say, each from the section the line before it left. -/

namespace Syswatch.ConfigLines
open Lib.CText ConfigText

/-! ## Reading one piece after the other -/

/-- What some pieces say: their settings up to the first piece that is refused,
and the section behind them if there is none. -/
structure Reading where
  settings : List Setting
  next : Option ConfigSection

/-- Nothing is read. -/
def Reading.at (sec : ConfigSection) : Reading := ⟨[], some sec⟩

/-- What is refused ends the reading. -/
def Reading.andThen (r : Reading) (k : ConfigSection → Reading) : Reading :=
  match r.next with
  | none => r
  | some sec => ⟨r.settings ++ (k sec).settings, (k sec).next⟩

@[simp] theorem Reading.at_andThen (sec : ConfigSection) (k : ConfigSection → Reading) :
    (Reading.at sec).andThen k = k sec := rfl

@[simp] theorem Reading.andThen_at (r : Reading) : r.andThen Reading.at = r := by
  obtain ⟨settings, next⟩ := r
  cases next with
  | none => rfl
  | some sec => simp [andThen, Reading.at]

theorem Reading.andThen_assoc (r : Reading) (k k' : ConfigSection → Reading) :
    (r.andThen k).andThen k' = r.andThen fun sec => (k sec).andThen k' := by
  obtain ⟨settings, next⟩ := r
  cases next with
  | none => rfl
  | some sec =>
    simp only [andThen]
    obtain ⟨settings', next⟩ := k sec
    cases next with
    | none => rfl
    | some sec' => simp

def readPiece (sec : ConfigSection) (piece : Bytes) : Reading :=
  match readLine sec piece with
  | none => ⟨[], none⟩
  | some (sec, s) => ⟨s.toList, some sec⟩

def readPieces : ConfigSection → List Bytes → Reading
  | sec, [] => .at sec
  | sec, piece :: rest => (readPiece sec piece).andThen fun sec => readPieces sec rest

theorem readPieces_append (sec : ConfigSection) (ps qs : List Bytes) :
    readPieces sec (ps ++ qs) = (readPieces sec ps).andThen fun sec => readPieces sec qs := by
  induction ps generalizing sec with
  | nil => rfl
  | cons p ps ih =>
    rw [List.cons_append, readPieces, readPieces, Reading.andThen_assoc]
    simp only [ih]

theorem readLines_eq (sec : ConfigSection) (pieces : List Bytes) :
    readLines sec pieces =
      ((readPieces sec pieces).settings, (readPieces sec pieces).next.isSome) := by
  induction pieces generalizing sec with
  | nil => rfl
  | cons p ps ih =>
    cases hp : readLine sec p with
    | none =>
      rw [readLines_refused hp, readPieces, readPiece, hp]
      rfl
    | some r =>
      rw [readLines_read hp, readPieces, readPiece, hp, ih]
      rfl

/-! ## Blanks at the end of a line -/

/-- Blanks at the end are no part of the text. -/
theorem rtrim_append {t : Bytes} (s : Bytes) (ht : ∀ b ∈ t, isBlank b = true) :
    rtrim (s ++ t) = rtrim s := by
  induction t using List.reverseRecOn with
  | nil => rw [List.append_nil]
  | append_singleton t b ih =>
    rw [rtrim, ← List.append_assoc, List.rdropWhile_concat_pos _ _ _ (ht b (by simp))]
    exact ih fun b hb => ht b (by simp [hb])

theorem isBlank_ne {b c : UInt8} (hb : isBlank b = true) (hc : isBlank c = false) : b ≠ c := by
  intro h
  rw [h, hc] at hb
  cases hb

theorem cutComment_blanks {t : Bytes} (ht : ∀ b ∈ t, isBlank b = true) (inQuotes atWord : Bool) :
    cutComment inQuotes atWord t = t := by
  induction t generalizing inQuotes atWord with
  | nil => rfl
  | cons c t ih =>
    have hc := ht c (by simp)
    have h35 : c ≠ 35 := isBlank_ne hc rfl
    rw [cutComment, if_neg (isBlank_ne hc rfl), if_neg (by simp [h35]), ih fun b hb => ht b (by simp [hb])]

/-- A comment swallows the blanks behind it, and nothing else touches them. -/
theorem cutComment_append {t : Bytes} (ht : ∀ b ∈ t, isBlank b = true) (inQuotes atWord : Bool)
    (s : Bytes) : cutComment inQuotes atWord (s ++ t) = cutComment inQuotes atWord s ∨
      cutComment inQuotes atWord (s ++ t) = cutComment inQuotes atWord s ++ t := by
  induction s generalizing inQuotes atWord with
  | nil => exact .inr (cutComment_blanks ht inQuotes atWord)
  | cons c s ih =>
    rw [List.cons_append, cutComment, cutComment]
    split_ifs
    · exact (ih _ _).imp (congrArg _) (congrArg _)
    · exact .inl rfl
    · exact (ih _ _).imp (congrArg _) (congrArg _)

theorem stripInlineComment_append {t : Bytes} (ht : ∀ b ∈ t, isBlank b = true) (s : Bytes) :
    stripInlineComment (s ++ t) = stripInlineComment s := by
  rw [stripInlineComment, stripInlineComment]
  rcases cutComment_append ht false true s with h | h
  · rw [h]
  · rw [h, rtrim_append _ ht]

theorem ltrim_append_head {t : Bytes} (ht : ∀ b ∈ t, isBlank b = true) (s : Bytes) :
    (ltrim (s ++ t)).head? = (ltrim s).head? := by
  induction s with
  | nil => rw [List.nil_append, ltrim, List.dropWhile_eq_nil_iff.mpr ht]; rfl
  | cons c s ih =>
    simp only [ltrim, List.cons_append, List.dropWhile_cons] at ih ⊢
    split
    · exact ih
    · rfl

/-- On a line with text the blanks do not count as indentation. -/
theorem indent_append {s : Bytes} (hs : (ltrim s).head? ≠ none) (t : Bytes) :
    ((s ++ t).takeWhile (· == 32)).length = (s.takeWhile (· == 32)).length := by
  rw [List.takeWhile_append]
  split
  · next hall =>
    refine absurd ?_ hs
    have hspaces := (List.takeWhile_sublist (· == (32 : UInt8))).eq_of_length hall
    rw [List.head?_eq_none_iff, ltrim, List.dropWhile_eq_nil_iff]
    intro b hb
    rw [eq_of_beq (List.takeWhile_eq_self_iff.mp hspaces b hb)]
    rfl
  · rfl

theorem cstr_append_blanks {t : Bytes} (ht : ∀ b ∈ t, isBlank b = true) (s : Bytes) :
    cstr (s ++ t) = cstr s ∨ cstr (s ++ t) = cstr s ++ t := by
  by_cases h0 : (0 : UInt8) ∈ s
  · obtain ⟨front, rest, rfl, hfront⟩ := List.eq_append_cons_of_mem h0
    left
    rw [List.append_assoc, List.cons_append, cstr_append_nul hfront, cstr_append_nul hfront]
  · have ht0 : (0 : UInt8) ∉ t := fun h => isBlank_ne (ht 0 h) rfl rfl
    right
    rw [cstr_of_noNul h0, cstr_of_noNul (by simp [h0, ht0])]

/-- **Blanks at the end of a line do not matter**, and neither does its newline. -/
theorem parseLine_append {t : Bytes} (ht : ∀ b ∈ t, isBlank b = true) (lineNo : Nat) (line : Bytes) :
    parseLine lineNo (line ++ t) = parseLine lineNo line := by
  rcases cstr_append_blanks ht line with hcut | hcut
  · rw [parseLine, parseLine, hcut]
  unfold parseLine
  dsimp only
  rw [hcut, ltrim_append_head ht]
  by_cases hstart : (ltrim (cstr line)).head? = none
  · rw [if_pos (.inl hstart), if_pos (.inl hstart)]
  · have hindent : ((cstr line).takeWhile (· == 32)).length ≤ (cstr line).length :=
      (List.takeWhile_sublist _).length_le
    rw [indent_append hstart, List.drop_append_of_le_length hindent, stripInlineComment_append ht]

/-! ## Lines -/

/-- The text with the given lines. -/
def textOf (lines : List Bytes) : Bytes := [10].intercalate lines

def readText : ConfigSection → List Bytes → Reading
  | sec, [] => .at sec
  | sec, line :: rest => (readPieces sec (fgetsAll 1024 [] line)).andThen fun sec => readText sec rest

theorem readText_append (sec : ConfigSection) (before after : List Bytes) :
    readText sec (before ++ after) = (readText sec before).andThen fun sec => readText sec after := by
  induction before generalizing sec with
  | nil => rfl
  | cons line before ih =>
    rw [List.cons_append, readText, readText, Reading.andThen_assoc]
    simp only [ih]

theorem readText_singleton (sec : ConfigSection) (line : Bytes) :
    readText sec [line] = readPieces sec (fgetsAll 1024 [] line) := Reading.andThen_at _

/-- A piece with its newline says what it says without; a newline by itself says nothing. -/
theorem readPieces_newline (sec : ConfigSection) (acc line : Bytes) :
    readPieces sec (fgetsAll 1024 acc (line ++ [10])) = readPieces sec (fgetsAll 1024 acc line) := by
  induction line generalizing sec acc with
  | nil =>
    by_cases hacc : acc = []
    · subst hacc
      rfl
    · have hnewline := parseLine_append (t := [10]) (by decide) 0 acc
      simp only [fgetsAll, List.nil_append, true_or, if_true, if_neg hacc, readPieces, readPiece,
        readLine, hnewline]
  | cons c line ih =>
    rw [List.cons_append, fgetsAll, fgetsAll]
    split
    · rw [readPieces, readPieces]
      simp only [ih]
    · exact ih sec _

theorem readPieces_textOf (sec : ConfigSection) (lines : List Bytes) :
    readPieces sec (fgetsAll 1024 [] (textOf lines)) = readText sec lines := by
  induction lines generalizing sec with
  | nil => rfl
  | cons line rest ih =>
    cases rest with
    | nil =>
      rw [textOf, List.intercalate_singleton, readText_singleton]
    | cons next rest =>
      have hsplit : textOf (line :: next :: rest) = line ++ 10 :: textOf (next :: rest) := by
        simp [textOf, List.intercalate_cons_cons]
      rw [hsplit, fgetsAll_split, readPieces_append, readPieces_newline, readText]
      simp only [ih]

/-- **The loader reads the lines one by one.** -/
theorem load_textOf {files : Files} {path : Bytes} {lines : List Bytes}
    (hread : files.read path = some (textOf lines)) (cfg : ConfigMemory) :
    (loadConfigFile files path cfg).1 = (if (readText .none lines).next.isSome then 0 else -1) ∧
      (loadConfigFile files path cfg).2.2 = applyTo cfg (readText .none lines).settings := by
  obtain ⟨hcfg, hcode, -⟩ := loadLines_eq 0 .none cfg (fgetsAll 1024 [] (textOf lines))
  rw [readLines_eq, readPieces_textOf] at hcfg hcode
  rw [loadConfigFile, hread]
  exact ⟨hcode, hcfg⟩

end Syswatch.ConfigLines
