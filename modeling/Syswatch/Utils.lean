import Syswatch.Types

/-! # Text helpers (`utils.c`) -/

namespace Syswatch
open Lib.CText

/-- `trim_whitespace`: white space is cut off at both ends. -/
def trimWhitespace (s : Bytes) : Bytes :=
  (((s.dropWhile isSpace).reverse).dropWhile isSpace).reverse

/-- `parse_ull`; `none` leaves the caller's variable as it was. -/
def parseUll (s : Bytes) : Option UInt64 :=
  let r := strtoull s
  if r.range ∨ !r.converted then none
  else if r.rest.all isSpace then some r.value
  else none

theorem parseUll_digits {ds : Bytes} (hne : ds ≠ []) (hds : ∀ b ∈ ds, isDigit b = true)
    (h : digitsValue ds < 2 ^ 64) : parseUll ds = some (UInt64.ofNat (digitsValue ds)) := by
  simp [parseUll, strtoull_digits hne hds h]

/-- White space around a text that has none at its ends is all that goes. -/
theorem trimWhitespace_surrounded {front body back : Bytes} (hf : ∀ b ∈ front, isSpace b = true)
    (hb : ∀ b ∈ back, isSpace b = true) (hfirst : ∀ b ∈ body.head?, isSpace b = false)
    (hlast : ∀ b ∈ body.getLast?, isSpace b = false) :
    trimWhitespace (front ++ (body ++ back)) = body := by
  have hcut : ∀ {pad text : Bytes}, (∀ b ∈ pad, isSpace b = true) →
      (∀ b ∈ text.head?, isSpace b = false) → (pad ++ text).dropWhile isSpace = text := by
    intro pad text hpad htext
    rw [List.dropWhile_append_of_pos hpad]
    cases text with
    | nil => rfl
    | cons b text => rw [List.dropWhile_cons_of_neg (by simp [htext b rfl])]
  rcases body with _ | ⟨b, body⟩
  · have : ∀ b ∈ front ++ back, isSpace b = true := by
      intro b hm
      rcases List.mem_append.mp hm with h | h
      · exact hf b h
      · exact hb b h
    rw [List.nil_append, trimWhitespace, List.dropWhile_eq_nil_iff.mpr this]
    rfl
  · rw [trimWhitespace, hcut hf (by simpa using hfirst), List.reverse_append,
      hcut (by simpa using hb) (by rwa [List.head?_reverse]), List.reverse_reverse]

end Syswatch
