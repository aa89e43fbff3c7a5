import Mathlib.Data.List.DropRight
import Mathlib.Tactic.Ring
import Syswatch.Lib.Binary64
import Syswatch.Lib.PyJson

/-! # Python's floats as texts

What `float` makes of a literal, and what `float.__repr__` makes of a double:
the shortest digits that are read back, with an exponent where the point is far
from them. -/

namespace Syswatch.Lib.PyFloat
open Unicode PyJson Binary64

/-! ## Reading -/

/-- The number behind the `e`. -/
def exponentValue : Text → Int
  | [] => 0
  | _ :: s =>
    let sg := sign (fun c => c == 43 || c == 45) s
    if sg.1 = [45] then -digitsValue sg.2 else digitsValue sg.2

/-- `float` of what the reader takes for a number. -/
def readNumber (literal : Text) : Double :=
  let minus := sign (· == 45) literal
  let whole := (integerPart minus.2).getD ([], [])
  let fr := fraction whole.2
  let ex := exponent fr.2
  Double.round (minus.1 ≠ [])
    (digitsValue (whole.1 ++ fr.1.tail) * 10 ^ (exponentValue ex.1 - fr.1.tail.length))

/-- The `float` that is decoded from a literal. -/
def readFloat (literal : Text) : Double :=
  if literal = chars "NaN" then .nan
  else if literal = chars "Infinity" then .inf false
  else if literal = chars "-Infinity" then .inf true
  else readNumber literal

/-! ## Writing -/

def decimalText (n : Nat) : Text := (CText.decimal n).map UInt8.toNat

def zeros (n : Nat) : Text := List.replicate n 48

/-- An exponent with its sign, and with two digits at least. -/
def exponentText (n : Int) : Text :=
  101 :: (if n < 0 then 45 else 43) ::
    if n.natAbs < 10 then 48 :: decimalText n.natAbs else decimalText n.natAbs

/-- Digits with the point behind so many of them (`format_float_short` for `'r'`). -/
def formatDigits (ds : Text) (point : Int) : Text :=
  if -4 < point ∧ point ≤ 16 then
    if point ≤ 0 then 48 :: 46 :: (zeros (-point).toNat ++ ds)
    else if (ds.length : Int) ≤ point then ds ++ (zeros (point - ds.length).toNat ++ [46, 48])
    else ds.take point.toNat ++ 46 :: ds.drop point.toNat
  else ds.take 1 ++ ((if ds.tail = [] then [] else 46 :: ds.tail) ++ exponentText (point - 1))

/-- The digits of a decimal without zeros at the end. -/
def significant (d : Decimal) : Text := (decimalText d.digits).rdropWhile (· == 48)

/-- Where the point is, counted from the first digit. -/
def point (d : Decimal) : Int := (decimalText d.digits).length + d.exponent

def magnitudeText (q : ℚ) : Text :=
  if q = 0 then chars "0.0"
  else match shortest q with
    | none => []
    | some d => formatDigits (significant d) (point d)

def signText (negative : Bool) : Text := if negative then [45] else []

/-- `float.__repr__`, with the names that `json` has for what is no number. -/
def floatText : Double → Text
  | .nan => chars "NaN"
  | .inf negative => signText negative ++ chars "Infinity"
  | .finite negative magnitude => signText negative ++ magnitudeText magnitude

example : floatText (readFloat (chars "-12.50E-1")) = chars "-1.25" ∧
    floatText (readFloat (chars "0.1e17")) = chars "1e+16" ∧
    floatText (readFloat (chars "1e999")) = chars "Infinity" := by
  decide +kernel

/-! ## Digits -/

theorem digitsValue_append (a b : Text) :
    digitsValue (a ++ b) = digitsValue a * 10 ^ b.length + digitsValue b := by
  have hfold : ∀ (b : Text) (v : Nat), b.foldl (fun v d => 10 * v + (d - 48)) v =
      v * 10 ^ b.length + b.foldl (fun v d => 10 * v + (d - 48)) 0 := by
    intro b
    induction b with
    | nil => intro v; simp
    | cons c b ih =>
      intro v
      rw [List.foldl_cons, List.foldl_cons, ih (10 * v + (c - 48)), ih (10 * 0 + (c - 48)),
        List.length_cons, pow_succ]
      ring
  rw [digitsValue, List.foldl_append]
  exact hfold b _

theorem digitsValue_zeros (n : Nat) : digitsValue (zeros n) = 0 := by
  induction n with
  | zero => rfl
  | succ n ih =>
    rw [zeros, List.replicate_succ, ← List.singleton_append, digitsValue_append, ← zeros, ih]
    simp [digitsValue]

theorem isDigit_zeros {n c : Nat} (h : c ∈ zeros n) : isDigit c = true := by
  rw [List.eq_of_mem_replicate h]
  rfl

theorem digitsValue_decimalText (n : Nat) : digitsValue (decimalText n) = n := by
  conv_rhs => rw [← CText.digitsValue_decimal n]
  rw [digitsValue, decimalText, List.foldl_map]
  rfl

theorem isDigit_decimalText {n c : Nat} (h : c ∈ decimalText n) : isDigit c = true := by
  obtain ⟨b, hb, rfl⟩ := List.mem_map.mp h
  have hdigit := CText.isDigit_of_mem_decimal hb
  simp only [CText.isDigit, Bool.and_eq_true, decide_eq_true_eq, UInt8.le_iff_toNat_le] at hdigit
  simpa [isDigit] using hdigit

theorem decimalText_ne_nil (n : Nat) : decimalText n ≠ [] := by
  simp [decimalText, CText.decimal_ne_nil]

theorem decimalText_head {n : Nat} (hn : 0 < n) : (decimalText n).head? ≠ some 48 := by
  intro h
  rw [decimalText, List.head?_map, Option.map_eq_some_iff] at h
  obtain ⟨b, hb, h48⟩ := h
  have : b = 48 := UInt8.toNat_inj.mp h48
  rw [this] at hb
  exact CText.decimal_head_ne_zero hn hb

/-! ## The parts of a literal -/

/-- The parts of a number, of which a fraction and an exponent may be missing. -/
structure Parts (w f e : Text) : Prop where
  whole : w = [48] ∨ w ≠ [] ∧ w.head? ≠ some 48 ∧ ∀ c ∈ w, isDigit c = true
  fr : f = [] ∨ ∃ fs, f = 46 :: fs ∧ fs ≠ [] ∧ ∀ c ∈ fs, isDigit c = true
  ex : e = [] ∨ ∃ sg es, e = 101 :: sg :: es ∧ (sg = 43 ∨ sg = 45) ∧ es ≠ [] ∧
    ∀ c ∈ es, isDigit c = true

variable {whole fr ex rest : Text}

theorem Parts.integerPart (h : Parts whole fr ex) (hrest : ∀ c ∈ rest.head?, isDigit c = false) :
    integerPart (whole ++ rest) = some (whole, rest) := by
  rcases h.whole with rfl | ⟨hne, h48, hdigits⟩
  · rfl
  · obtain ⟨c, cs, rfl⟩ := List.exists_cons_of_ne_nil hne
    have hc : c ≠ 48 := fun hc => h48 (congrArg some hc)
    have hread := digits_append hdigits hrest
    rw [List.cons_append] at hread ⊢
    rw [PyJson.integerPart, if_neg hc, if_pos (hdigits c List.mem_cons_self), hread]

theorem Parts.fraction (h : Parts whole fr ex)
    (hrest : ∀ c ∈ rest.head?, isDigit c = false ∧ c ≠ 46) : fraction (fr ++ rest) = (fr, rest) := by
  rcases h.fr with rfl | ⟨fs, rfl, hne, hdigits⟩
  · exact fraction_nil fun c hc => (hrest c hc).2
  · have hread := digits_append hdigits fun c hc => (hrest c hc).1
    rw [List.cons_append, PyJson.fraction, hread, if_pos ⟨rfl, hne⟩]

theorem Parts.exponent (h : Parts whole fr ex) (hrest : Stops rest) :
    exponent (ex ++ rest) = (ex, rest) := by
  rcases h.ex with rfl | ⟨sg, es, rfl, hsign, hne, hdigits⟩
  · exact exponent_nil fun c hc => (hrest c hc).2.2
  · have hread := digits_append hdigits fun c hc => (hrest c hc).1
    have hsigned : sign (fun c => c == 43 || c == 45) (sg :: (es ++ rest)) = ([sg], es ++ rest) := by
      rcases hsign with rfl | rfl <;> rfl
    rw [List.cons_append, List.cons_append, PyJson.exponent]
    simp only [hsigned, hread]
    rw [if_pos ⟨.inl trivial, hne⟩]
    rfl

/-- What may follow each of the parts. -/
theorem Parts.follows (h : Parts whole fr ex) (hrest : Stops rest) :
    (∀ c ∈ (ex ++ rest).head?, isDigit c = false ∧ c ≠ 46) ∧
      ∀ c ∈ (fr ++ (ex ++ rest)).head?, isDigit c = false := by
  have hex : ∀ c ∈ (ex ++ rest).head?, isDigit c = false ∧ c ≠ 46 := by
    refine head_append (fun c hc => ?_) fun c hc => ⟨(hrest c hc).1, (hrest c hc).2.1⟩
    rcases h.ex with rfl | ⟨sg, es, rfl, -⟩
    · cases hc
    · cases hc
      decide
  refine ⟨hex, head_append (fun c hc => ?_) fun c hc => (hex c hc).1⟩
  rcases h.fr with rfl | ⟨fs, rfl, -⟩
  · cases hc
  · cases hc
    rfl

theorem Parts.sign (h : Parts whole fr ex) (negative : Bool) (rest : Text) :
    sign (· == 45) (signText negative ++ (whole ++ rest)) = (signText negative, whole ++ rest) := by
  cases negative with
  | true => rfl
  | false =>
    refine sign_absent (sign_nil fun c hc => ?_)
    have hdigit : isDigit c = true := by
      rcases h.whole with rfl | ⟨hne, -, hdigits⟩
      · cases hc
        rfl
      · obtain ⟨d, ds, rfl⟩ := List.exists_cons_of_ne_nil hne
        cases hc
        exact hdigits _ List.mem_cons_self
    refine beq_eq_false_iff_ne.mpr ?_
    rintro rfl
    cases hdigit

/-- **What is written is read** as a number, up to its end. -/
theorem Parts.number (h : Parts whole fr ex) (negative : Bool) (hrest : Stops rest) :
    number (signText negative ++ (whole ++ (fr ++ (ex ++ rest)))) =
      some (if fr = [] ∧ ex = [] then .int (if negative then -digitsValue whole else digitsValue whole)
        else .float (signText negative ++ (whole ++ (fr ++ ex))), rest) := by
  obtain ⟨hafterFr, hafterWhole⟩ := h.follows hrest
  rw [PyJson.number]
  simp only [h.sign negative, h.integerPart hafterWhole, h.fraction hafterFr, h.exponent hrest,
    Option.map_some]
  cases negative <;> split_ifs <;> first | rfl | contradiction

theorem Parts.readNumber (h : Parts whole fr ex) (negative : Bool) :
    readNumber (signText negative ++ (whole ++ (fr ++ ex))) = Double.round negative
      (digitsValue (whole ++ fr.tail) * 10 ^ (exponentValue ex - fr.tail.length)) := by
  have hend : Stops [] := by simp [Stops]
  obtain ⟨hafterFr, hafterWhole⟩ := h.follows hend
  have hex := h.exponent hend
  rw [List.append_nil] at hafterFr hafterWhole hex
  have hsigned : decide (signText negative ≠ []) = negative := by cases negative <;> rfl
  rw [PyFloat.readNumber]
  simp only [h.sign negative, h.integerPart hafterWhole, h.fraction hafterFr, hex, Option.getD_some,
    hsigned]

/-! ## What is written is a number -/

theorem digitsValue_zero_cons (ds : Text) : digitsValue (48 :: ds) = digitsValue ds := by
  rw [← List.singleton_append, digitsValue_append]
  simp [digitsValue]

/-- The sign and the digits of an exponent. -/
theorem exponentText_split (n : Int) : ∃ sg es, exponentText n = 101 :: sg :: es ∧
    (sg = 43 ∨ sg = 45) ∧ es ≠ [] ∧ (∀ c ∈ es, isDigit c = true) ∧
    exponentValue (exponentText n) = n := by
  refine ⟨if n < 0 then 45 else 43,
    if n.natAbs < 10 then 48 :: decimalText n.natAbs else decimalText n.natAbs, rfl, ?_, ?_, ?_, ?_⟩
  · split_ifs <;> simp
  · split_ifs <;> simp [decimalText_ne_nil]
  · intro c hc
    split_ifs at hc
    · rcases List.mem_cons.mp hc with rfl | hc
      · rfl
      · exact isDigit_decimalText hc
    · exact isDigit_decimalText hc
  · have hdigits : digitsValue (if n.natAbs < 10 then 48 :: decimalText n.natAbs
        else decimalText n.natAbs) = n.natAbs := by
      split_ifs
      · rw [digitsValue_zero_cons, digitsValue_decimalText]
      · exact digitsValue_decimalText _
    rw [exponentText, exponentValue]
    generalize (if n.natAbs < 10 then _ else _ : Text) = es at hdigits
    by_cases hn : n < 0
    · have hsigned : sign (fun c => c == 43 || c == 45) (45 :: es) = ([45], es) := rfl
      rw [if_pos hn, hsigned, hdigits, if_pos rfl]
      omega
    · have hsigned : sign (fun c => c == 43 || c == 45) (43 :: es) = ([43], es) := rfl
      rw [if_neg hn, hsigned, hdigits, if_neg (show ¬[43] = [45] by decide)]
      omega

variable {ds : Text}

theorem parts_plain {whole : Text} (fs : Text)
    (hwhole : whole = [48] ∨ whole ≠ [] ∧ whole.head? ≠ some 48 ∧ ∀ c ∈ whole, isDigit c = true)
    (hne : fs ≠ []) (hfs : ∀ c ∈ fs, isDigit c = true) :
    ¬(46 :: fs = [] ∧ ([] : Text) = []) ∧ Parts whole (46 :: fs) [] :=
  ⟨by simp, hwhole, .inr ⟨fs, rfl, hne, hfs⟩, .inl rfl⟩

theorem parts_exponent (hne : ds ≠ []) (h48 : ds.head? ≠ some 48) (hds : ∀ c ∈ ds, isDigit c = true)
    {fr : Text} (hfr : fr = [] ∨ ∃ fs, fr = 46 :: fs ∧ fs ≠ [] ∧ ∀ c ∈ fs, isDigit c = true)
    (htail : fr.tail = ds.tail) (point : Int) :
    ¬(fr = [] ∧ exponentText (point - 1) = []) ∧ Parts (ds.take 1) fr (exponentText (point - 1)) ∧
      (digitsValue (ds.take 1 ++ fr.tail) *
        10 ^ (exponentValue (exponentText (point - 1)) - fr.tail.length) : ℚ) =
        digitsValue ds * 10 ^ (point - ds.length) := by
  obtain ⟨d, ds, rfl⟩ := List.exists_cons_of_ne_nil hne
  obtain ⟨sg, es, hex, hsign, hes, hdigits, hvalue⟩ := exponentText_split (point - 1)
  refine ⟨by simp [hex], ⟨.inr ⟨by simp, h48, by simpa using hds d⟩, hfr,
    .inr ⟨sg, es, hex, hsign, hes, hdigits⟩⟩, ?_⟩
  have hexponent : point - 1 - (ds.length : Int) = point - (d :: ds).length := by
    rw [List.length_cons]
    push_cast
    omega
  rw [htail, hvalue, List.tail_cons, hexponent]
  rfl

/-- The text of some digits is a number, and of the value that they have there. -/
theorem formatDigits_parts (hne : ds ≠ []) (h48 : ds.head? ≠ some 48)
    (hds : ∀ c ∈ ds, isDigit c = true) (point : Int) :
    ∃ whole fr ex, formatDigits ds point = whole ++ (fr ++ ex) ∧ ¬(fr = [] ∧ ex = []) ∧
      Parts whole fr ex ∧
      (digitsValue (whole ++ fr.tail) * 10 ^ (exponentValue ex - fr.tail.length) : ℚ) =
        digitsValue ds * 10 ^ (point - ds.length) := by
  unfold formatDigits
  split_ifs with hplain hsmall hlong
  -- zeros in front, zeros behind, the point between the digits, and an exponent
  · obtain ⟨hmarked, hparts⟩ := parts_plain (zeros (-point).toNat ++ ds) (.inl rfl) (by simp [hne])
      fun c hc => (List.mem_append.mp hc).elim isDigit_zeros (hds c)
    refine ⟨[48], _, [], by simp, hmarked, hparts, ?_⟩
    have hexponent : exponentValue [] - ((zeros (-point).toNat ++ ds).length : Int) =
        point - ds.length := by
      simp only [exponentValue, zeros, List.length_append, List.length_replicate]
      omega
    rw [List.tail_cons, List.singleton_append, digitsValue_zero_cons, digitsValue_append,
      digitsValue_zeros, zero_mul, zero_add, hexponent]
  · obtain ⟨hmarked, hparts⟩ := parts_plain [48] (.inr ⟨by simp [hne],
      by rwa [List.head?_append_of_ne_nil _ hne],
      fun c hc => (List.mem_append.mp hc).elim (hds c) isDigit_zeros⟩) (by simp) (by simp [isDigit])
    refine ⟨ds ++ zeros (point - ds.length).toNat, _, [], by simp, hmarked, hparts, ?_⟩
    obtain ⟨k, hk⟩ := Int.eq_ofNat_of_zero_le (show 0 ≤ point - ds.length by omega)
    have hshift : digitsValue (ds ++ zeros k ++ [48]) = digitsValue ds * 10 ^ k * 10 := by
      rw [digitsValue_append, digitsValue_append, digitsValue_zeros]
      simp [zeros, digitsValue]
    rw [hk, Int.toNat_natCast, List.tail_cons, hshift]
    simp [exponentValue, zpow_natCast]
  · have htake : ds.take point.toNat ≠ [] := by
      simp only [ne_eq, List.take_eq_nil_iff, hne, or_false]
      omega
    have hdrop : ds.drop point.toNat ≠ [] := by
      rw [ne_eq, List.drop_eq_nil_iff]
      omega
    have hfirst : (ds.take point.toNat).head? ≠ some 48 := by
      rwa [List.head?_take, if_neg (by omega)]
    obtain ⟨hmarked, hparts⟩ := parts_plain (ds.drop point.toNat) (.inr ⟨htake, hfirst,
      fun c hc => hds c (List.mem_of_mem_take hc)⟩) hdrop fun c hc => hds c (List.mem_of_mem_drop hc)
    refine ⟨ds.take point.toNat, _, [], by simp, hmarked, hparts, ?_⟩
    have hexponent : exponentValue [] - ((ds.drop point.toNat).length : Int) =
        point - ds.length := by
      simp only [exponentValue, List.length_drop]
      omega
    rw [List.tail_cons, List.take_append_drop, hexponent]
  · next htail => exact ⟨_, _, _, rfl, parts_exponent hne h48 hds (.inl rfl) htail.symm point⟩
  · next htail =>
    exact ⟨_, _, _, rfl, parts_exponent hne h48 hds
      (.inr ⟨ds.tail, rfl, htail, fun c hc => hds c (List.mem_of_mem_tail hc)⟩) rfl point⟩

/-! ## What is written is read back -/

/-- The digits of a decimal, and the zeros at the end. -/
theorem significant_split (d : Decimal) : ∃ k, decimalText d.digits = significant d ++ zeros k := by
  have hzeros : ∀ c ∈ (decimalText d.digits).rtakeWhile (· == 48), c = 48 := fun c hc =>
    eq_of_beq (List.mem_rtakeWhile_imp (p := (· == 48)) hc)
  refine ⟨((decimalText d.digits).rtakeWhile (· == 48)).length, ?_⟩
  rw [zeros, ← List.eq_replicate_of_mem hzeros]
  exact List.rdropWhile_append_rtakeWhile.symm

/-- The text of a decimal is a number, and of the value of the decimal. -/
theorem decimal_parts {d : Decimal} (hd : 0 < d.digits) :
    ∃ whole fr ex, formatDigits (significant d) (point d) = whole ++ (fr ++ ex) ∧
      ¬(fr = [] ∧ ex = []) ∧ Parts whole fr ex ∧
      (digitsValue (whole ++ fr.tail) * 10 ^ (exponentValue ex - fr.tail.length) : ℚ) = d.value := by
  obtain ⟨k, hk⟩ := significant_split d
  have hvalue : d.digits = digitsValue (significant d) * 10 ^ k := by
    conv_lhs => rw [← digitsValue_decimalText d.digits, hk]
    rw [digitsValue_append, digitsValue_zeros, add_zero, zeros, List.length_replicate]
  have hne : significant d ≠ [] := by
    intro hnil
    rw [hnil] at hvalue
    simp [digitsValue] at hvalue
    omega
  have h48 := decimalText_head hd
  rw [hk, List.head?_append_of_ne_nil _ hne] at h48
  obtain ⟨whole, fr, ex, htext, hmarked, hparts, hread⟩ := formatDigits_parts hne h48
    (fun c hc => isDigit_decimalText (n := d.digits) (hk ▸ List.mem_append_left _ hc)) (point d)
  refine ⟨whole, fr, ex, htext, hmarked, hparts, ?_⟩
  have hpoint : point d - (significant d).length = k + d.exponent := by
    rw [point, hk, List.length_append, zeros, List.length_replicate]
    push_cast
    omega
  rw [hread, hpoint, Decimal.value, zpow_add₀ (by norm_num), zpow_natCast, ← mul_assoc]
  congr 1
  exact_mod_cast hvalue.symm

theorem magnitudeText_parts {q : ℚ} (h0 : 0 ≤ q) (hrep : Representable q) (hsmall : q < 2 ^ 1024) :
    ∃ whole fr ex, magnitudeText q = whole ++ (fr ++ ex) ∧ ¬(fr = [] ∧ ex = []) ∧
      Parts whole fr ex ∧
      nearest (digitsValue (whole ++ fr.tail) * 10 ^ (exponentValue ex - fr.tail.length)) = q := by
  unfold magnitudeText
  split_ifs with hzero
  · obtain ⟨hmarked, hparts⟩ := parts_plain [48] (.inl rfl) (by simp)
      (by simp [isDigit])
    refine ⟨_, _, _, rfl, hmarked, hparts, ?_⟩
    have hdigits : digitsValue ([48] ++ [48]) = 0 := rfl
    rw [List.tail_cons, hdigits, Nat.cast_zero, zero_mul, nearest_zero, hzero]
  · obtain ⟨d, hd, hback, hpos⟩ := shortest_spec (lt_of_le_of_ne h0 (Ne.symm hzero)) hrep hsmall
    obtain ⟨whole, fr, ex, htext, hmarked, hparts, hvalue⟩ := decimal_parts hpos
    rw [hd]
    exact ⟨whole, fr, ex, htext, hmarked, hparts, by rw [hvalue, hback]⟩

theorem readFloat_proper (literal : Text) : (readFloat literal).Proper := by
  unfold readFloat
  split_ifs
  · trivial
  · trivial
  · trivial
  · exact Double.round_proper _ (by positivity)

theorem Parts.numeric (h : Parts whole fr ex) (negative : Bool) (rest : Text) :
    Numeric (signText negative ++ (whole ++ rest)) := by
  obtain ⟨d, ds, rfl, hd⟩ : ∃ d ds, whole = d :: ds ∧ isDigit d = true := by
    rcases h.whole with rfl | ⟨hne, -, hdigits⟩
    · exact ⟨48, [], rfl, rfl⟩
    · obtain ⟨d, ds, rfl⟩ := List.exists_cons_of_ne_nil hne
      exact ⟨d, ds, rfl, hdigits d List.mem_cons_self⟩
  cases negative with
  | true => exact .inr ⟨d, _, rfl, hd⟩
  | false => exact .inl ⟨d, _, rfl, hd⟩

theorem denotes_whole {t : Text} {v : PyValue}
    (h : constant t = some (v, []) ∨ number t = some (v, [])) : Denotes t v := by
  cases t with
  | nil => exact h.elim (fun h => nomatch h) fun h => nomatch h
  | cons c s =>
    obtain ⟨t, ht, hdenotes⟩ := scalar_takes h
    rwa [ht, List.append_nil]

theorem Parts.denotes (h : Parts whole fr ex) (negative : Bool) :
    Denotes (signText negative ++ (whole ++ (fr ++ ex))) (if fr = [] ∧ ex = [] then
      .int (if negative then -digitsValue whole else digitsValue whole)
        else .float (signText negative ++ (whole ++ (fr ++ ex)))) := by
  have hread := h.number negative (show Stops [] by simp [Stops])
  rw [List.append_nil] at hread
  exact denotes_whole (.inr hread)

/-- **A double is written as a float**, and it is read as the same double. -/
theorem denotes_floatText {x : Double} (hx : x.Proper) :
    Denotes (floatText x) (.float (floatText x)) ∧ readFloat (floatText x) = x := by
  match x with
  | .nan => exact ⟨denotes_whole (.inl rfl), rfl⟩
  | .inf true => exact ⟨denotes_whole (.inl rfl), rfl⟩
  | .inf false => exact ⟨denotes_whole (.inl rfl), rfl⟩
  | .finite negative q =>
    obtain ⟨h0, hrep, hsmall⟩ := hx
    obtain ⟨whole, fr, ex, htext, hmarked, hparts, hvalue⟩ := magnitudeText_parts h0 hrep hsmall
    have hdenotes := hparts.denotes negative
    have hconstant : ∀ name, constant name ≠ none →
        signText negative ++ (whole ++ (fr ++ ex)) ≠ name := by
      rintro name hname rfl
      have hnone := constant_numeric (hparts.numeric negative (fr ++ ex)) []
      rw [List.append_nil] at hnone
      exact hname hnone
    rw [floatText, htext]
    refine ⟨by rwa [if_neg hmarked] at hdenotes, ?_⟩
    rw [readFloat, if_neg (hconstant _ (by decide)), if_neg (hconstant _ (by decide)),
      if_neg (hconstant _ (by decide)), hparts.readNumber]
    exact Double.round_eq hsmall hvalue

/-- `int.__repr__`. -/
def intText (n : Int) : Text := signText (n < 0) ++ decimalText n.natAbs

theorem denotes_intText (n : Int) : Denotes (intText n) (.int n) := by
  have hwhole : decimalText n.natAbs = [48] ∨ decimalText n.natAbs ≠ [] ∧
      (decimalText n.natAbs).head? ≠ some 48 ∧ ∀ c ∈ decimalText n.natAbs, isDigit c = true := by
    rcases Nat.eq_zero_or_pos n.natAbs with h | h
    · rw [h]
      exact .inl (by decide)
    · exact .inr ⟨decimalText_ne_nil _, decimalText_head h, fun c => isDigit_decimalText⟩
  have hparts : Parts (decimalText n.natAbs) [] [] := ⟨hwhole, .inl rfl, .inl rfl⟩
  have hdenotes := hparts.denotes (n < 0)
  have hvalue : (if n < 0 then -(n.natAbs : Int) else n.natAbs) = n := by
    split_ifs <;> omega
  rw [if_pos ⟨rfl, rfl⟩, digitsValue_decimalText, List.append_nil, List.append_nil] at hdenotes
  simp only [decide_eq_true_eq, hvalue] at hdenotes
  exact hdenotes

end Syswatch.Lib.PyFloat
