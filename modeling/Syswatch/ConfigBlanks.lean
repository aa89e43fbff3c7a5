import Syswatch.ConfigLines

/-! # White space in the configuration file

Two texts that differ in blanks at the ends of their lines, and in lines that
have nothing but blanks, are read alike, whether they are accepted or not. -/

namespace Syswatch.ConfigBlanks
open Lib.CText ConfigText ConfigLines

/-- The lines on the right are those on the left with spaces and tabs behind
some of them, or the CR of a CRLF, and with lines of spaces and tabs among them. -/
inductive Respaced : List Bytes → List Bytes → Prop
  | nil : Respaced [] []
  | line {lines lines' : List Bytes} {t : Bytes} (l : Bytes) (ht : ∀ b ∈ t, b = 32 ∨ b = 9 ∨ b = 13)
      (h : Respaced lines lines') : Respaced (l :: lines) ((l ++ t) :: lines')
  | blankLine {lines lines' : List Bytes} {t : Bytes} (ht : ∀ b ∈ t, b = 32 ∨ b = 9)
      (h : Respaced lines lines') : Respaced lines (t :: lines')

/-- With its newline the line has at most 1023 bytes. -/
structure Fits (l : Bytes) : Prop where
  noNewline : (10 : UInt8) ∉ l
  length : l.length ≤ 1022

theorem readPiece_blank (sec : ConfigSection) {t : Bytes} (ht : ∀ b ∈ t, isBlank b = true) :
    readPiece sec t = .at sec := by
  have hparse : parseLine 0 t = .ok none := parseLine_append ht 0 []
  rw [readPiece, readLine, hparse]
  rfl

/-- A line that fits is one piece, or none. -/
theorem readPieces_fits (sec : ConfigSection) {l : Bytes} (h : Fits l) :
    readPieces sec (fgetsAll 1024 [] l) = readPiece sec l := by
  by_cases hne : l = []
  · rw [hne, readPiece_blank sec (by simp)]
    rfl
  · have hlength := h.length
    have hpiece : fgetsAll 1024 [] l = [l] :=
      fgetsAll_short h.noNewline (by simpa using hne) (by simpa using by omega)
    rw [hpiece, readPieces]
    exact Reading.andThen_at _

theorem readPiece_append (sec : ConfigSection) {t : Bytes} (ht : ∀ b ∈ t, isBlank b = true)
    (l : Bytes) : readPiece sec (l ++ t) = readPiece sec l := by
  rw [readPiece, readPiece, readLine, readLine, parseLine_append ht]

theorem readText_respaced {lines lines' : List Bytes} (h : Respaced lines lines')
    (hfits : ∀ l ∈ lines, Fits l) (hfits' : ∀ l ∈ lines', Fits l) (sec : ConfigSection) :
    readText sec lines' = readText sec lines := by
  induction h generalizing sec with
  | nil => rfl
  | line l ht _ ih =>
    have hblank := fun b hb => show isBlank b = true by rcases ht b hb with rfl | rfl | rfl <;> rfl
    have hrest := ih (fun m hm => hfits m (by simp [hm])) fun m hm => hfits' m (by simp [hm])
    rw [readText, readText, readPieces_fits sec (hfits l (by simp)),
      readPieces_fits sec (hfits' _ List.mem_cons_self), readPiece_append sec hblank]
    simp only [hrest]
  | blankLine ht _ ih =>
    have hblank := fun b hb => show isBlank b = true by rcases ht b hb with rfl | rfl <;> rfl
    rw [readText, readPieces_fits sec (hfits' _ List.mem_cons_self), readPiece_blank sec hblank,
      Reading.at_andThen]
    exact ih hfits (fun m hm => hfits' m (by simp [hm])) sec

/-- **White space at the ends of lines, and between lines, has no effect.** -/
theorem respaced_same {lines lines' : List Bytes} (h : Respaced lines lines')
    (hfits : ∀ l ∈ lines, Fits l) (hfits' : ∀ l ∈ lines', Fits l) {files files' : Files}
    {path : Bytes} (hread : files.read path = some (textOf lines))
    (hread' : files'.read path = some (textOf lines')) (cfg : ConfigMemory) :
    (loadConfigFile files' path cfg).1 = (loadConfigFile files path cfg).1 ∧
      (loadConfigFile files' path cfg).2.2 = (loadConfigFile files path cfg).2.2 := by
  obtain ⟨hcode, hcfg⟩ := load_textOf hread cfg
  obtain ⟨hcode', hcfg'⟩ := load_textOf hread' cfg
  rw [hcode, hcode', hcfg, hcfg', readText_respaced h hfits hfits']
  exact ⟨rfl, rfl⟩

/-- A quote without its end, a comment, and a last line that is refused. -/
def sampleLines : List Bytes :=
  [ascii "output: # o", ascii "  path: \"a # b", ascii "log:", ascii "  level: debug", ascii "x"]

def sampleRespaced : List Bytes :=
  [ascii "output: # o" ++ [13], ascii " \t", ascii "  path: \"a # b" ++ ascii "  \r", ascii "log:" ++ [],
    [], ascii "  level: debug" ++ [9, 32], ascii "x" ++ [32]]

theorem sample_respaced : Respaced sampleLines sampleRespaced :=
  .line _ (by decide) (.blankLine (by decide) (.line _ (by decide) (.line _ (by decide)
    (.blankLine (by decide) (.line _ (by decide) (.line _ (by decide) .nil))))))

theorem fits_of_check {lines : List Bytes} (h : ∀ l ∈ lines, (10 : UInt8) ∉ l ∧ l.length ≤ 1022) :
    ∀ l ∈ lines, Fits l := fun l hl => ⟨(h l hl).1, (h l hl).2⟩

theorem respaced_same_example :
    (loadConfigFile ⟨textOf sampleRespaced, fun _ => none⟩ (ascii "-") .initDefaultConfig).1 =
        (loadConfigFile ⟨textOf sampleLines, fun _ => none⟩ (ascii "-") .initDefaultConfig).1 ∧
      (loadConfigFile ⟨textOf sampleRespaced, fun _ => none⟩ (ascii "-") .initDefaultConfig).2.2 =
        (loadConfigFile ⟨textOf sampleLines, fun _ => none⟩ (ascii "-") .initDefaultConfig).2.2 :=
  respaced_same sample_respaced (fits_of_check (by decide)) (fits_of_check (by decide)) rfl rfl _

end Syswatch.ConfigBlanks
