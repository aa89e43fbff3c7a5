import Syswatch.Lib.CText

/-! # Lines of words

Texts that carry what they consist of: blanks, words, the digits of a counter,
and a line of words with blanks between them. -/

namespace Syswatch.Lib.Words
open CText

/-- Spaces and tabs. -/
structure Blanks where
  text : Bytes
  blank : ∀ b ∈ text, b = 32 ∨ b = 9

/-- What stands between two words. -/
structure Gap extends Blanks where
  nonempty : text ≠ []

/-- A word has no white space in it. -/
structure Word where
  text : Bytes
  nonempty : text ≠ []
  noSpace : ∀ b ∈ text, isSpace b = false
  noNul : (0 : UInt8) ∉ text

/-- The digits of a 64-bit counter. -/
structure Numeral where
  text : Bytes
  nonempty : text ≠ []
  digits : ∀ b ∈ text, isDigit b = true
  small : digitsValue text < 2 ^ 64

def Numeral.value (n : Numeral) : UInt64 := UInt64.ofNat (digitsValue n.text)

/-- A counter as `%llu` prints it. -/
def Numeral.printed (n : UInt64) : Numeral where
  text := decimal n.toNat
  nonempty := decimal_ne_nil _
  digits := fun _ hb => isDigit_of_mem_decimal hb
  small := by
    rw [digitsValue_decimal]
    exact n.toNat_lt

theorem Numeral.value_printed (n : UInt64) : (Numeral.printed n).value = n := by
  rw [Numeral.value, Numeral.printed, digitsValue_decimal]
  exact UInt64.ofNat_toNat

theorem not_digit_zero {s : Bytes} (h : ∀ b ∈ s, isDigit b = true) : (0 : UInt8) ∉ s := fun h0 =>
  absurd (h 0 h0) (by decide)

def Numeral.word (n : Numeral) : Word :=
  ⟨n.text, n.nonempty, fun b hb => not_isSpace_of_isDigit (n.digits b hb), not_digit_zero n.digits⟩

theorem Blanks.isSpace (s : Blanks) : ∀ b ∈ s.text, isSpace b = true := by
  intro b hb
  rcases s.blank b hb with rfl | rfl <;> rfl

theorem Blanks.noNul (s : Blanks) : (0 : UInt8) ∉ s.text := fun h0 => by
  have := s.isSpace 0 h0
  cases this

theorem Blanks.noNewline (s : Blanks) : (10 : UInt8) ∉ s.text := fun h => by
  rcases s.blank 10 h with h | h <;> cases h

theorem Word.noNewline (w : Word) : (10 : UInt8) ∉ w.text := fun h => by
  have := w.noSpace 10 h
  cases this

/-- A blank ends a token, and a word is one. -/
theorem Word.no_delim (w : Word) : ∀ b ∈ w.text, (b == 32 || b == 9) = false := by
  intro b hb
  have hspace := w.noSpace b hb
  have h32 : b ≠ 32 := by rintro rfl; cases hspace
  have h9 : b ≠ 9 := by rintro rfl; cases hspace
  simp [h32, h9]

theorem Blanks.delim (s : Blanks) : ∀ b ∈ s.text, (b == 32 || b == 9) = true := by
  intro b hb
  rcases s.blank b hb with rfl | rfl <;> rfl

/-- A line: blanks, the first word, and the others with the gaps in front of them. -/
structure Line where
  front : Blanks
  first : Word
  others : List (Gap × Word)
  back : Blanks

def Line.words (l : Line) : List Bytes := l.first.text :: l.others.map fun p => p.2.text

/-- The words and the gaps between them. -/
def Line.body (l : Line) : Bytes :=
  l.first.text ++ spaced (l.others.map fun p => (p.1.text, p.2.text))

def Line.text (l : Line) : Bytes := l.front.text ++ (l.body ++ l.back.text)

theorem mem_spaced {ps : List (Gap × Word)} {b : UInt8}
    (h : b ∈ spaced (ps.map fun p => (p.1.text, p.2.text))) :
    ∃ p ∈ ps, b ∈ p.1.text ∨ b ∈ p.2.text := by
  obtain ⟨q, hq, hb⟩ := List.mem_flatMap.mp h
  obtain ⟨p, hp, rfl⟩ := List.mem_map.mp hq
  exact ⟨p, hp, List.mem_append.mp hb⟩

theorem Line.not_mem {l : Line} {b : UInt8} (hblanks : ∀ s : Blanks, b ∉ s.text)
    (hwords : ∀ w : Word, b ∉ w.text) : b ∉ l.text := by
  intro h
  simp only [Line.text, Line.body, List.mem_append] at h
  rcases h with h | (h | h) | h
  · exact hblanks _ h
  · exact hwords _ h
  · obtain ⟨p, -, hp | hp⟩ := mem_spaced h
    · exact hblanks p.1.toBlanks hp
    · exact hwords p.2 hp
  · exact hblanks _ h

theorem Line.body_last (l : Line) : ∀ b ∈ l.body.getLast?, isSpace b = false := by
  intro b hb
  rcases List.eq_nil_or_concat l.others with hnil | ⟨init, p, hp⟩
  · rw [Line.body, hnil] at hb
    exact l.first.noSpace b (List.mem_of_getLast? (by simpa [spaced] using hb))
  · have hbody : l.body =
        (l.first.text ++ (spaced (init.map fun p => (p.1.text, p.2.text)) ++ p.1.text)) ++ p.2.text := by
      rw [Line.body, hp]
      simp [spaced]
    rw [hbody, List.getLast?_append_of_ne_nil _ p.2.nonempty] at hb
    exact p.2.noSpace b (List.mem_of_getLast? hb)

/-- `strtok` finds the words. -/
theorem Line.strtokAll_body (l : Line) :
    strtokAll (fun b => b == 32 || b == 9) [] l.body = l.words := by
  rw [Line.body, strtokAll_append l.first.no_delim, List.nil_append, strtokAll_spaced,
    if_neg l.first.nonempty, List.map_map]
  · rfl
  · intro q hq
    obtain ⟨p, -, rfl⟩ := List.mem_map.mp hq
    exact ⟨⟨p.1.nonempty, p.1.delim⟩, p.2.nonempty, p.2.no_delim⟩

end Syswatch.Lib.Words
