import Syswatch.Lib.Unicode

/-! # Python's reader of JSON texts

`json.loads` over code points. It takes `NaN` and the infinities besides the
JSON values. It is total through fuel, of which one more than the length is
always enough (`decodeText_iff`). Two limits of the interpreter come on top of it, in
`PyLimits`: the depth of its stack and the number of digits of an `int`. -/

namespace Syswatch.Lib.PyJson
open Unicode

/-- A decoded value. A `float` keeps the text it is read from, and a `dict` its
items in the order they are set. -/
inductive PyValue where
  | none
  | bool (b : Bool)
  | int (n : Int)
  | float (literal : Text)
  | str (s : Text)
  | list (items : List PyValue)
  | dict (members : List (Text × PyValue))

def chars (s : String) : Text := s.toList.map Char.toNat

/-! ## The reader -/

def isWs (c : Nat) : Bool := c == 32 || c == 9 || c == 10 || c == 13

def skipWs (s : Text) : Text := s.dropWhile isWs

def isDigit (c : Nat) : Bool := 48 ≤ c && c ≤ 57

def hexVal (c : Nat) : Option Nat :=
  if 48 ≤ c ∧ c ≤ 57 then some (c - 48)
  else if 97 ≤ c ∧ c ≤ 102 then some (c - 87)
  else if 65 ≤ c ∧ c ≤ 70 then some (c - 55)
  else none

/-- Four hexadecimal digits. -/
def hex4 : Text → Option (Nat × Text)
  | a :: b :: c :: d :: rest => do
    let a ← hexVal a
    let b ← hexVal b
    let c ← hexVal c
    let d ← hexVal d
    some (4096 * a + 256 * b + 16 * c + d, rest)
  | _ => none

/-- The second half of a surrogate pair, if one follows. -/
def lowSurrogate : Text → Option (Nat × Text)
  | 92 :: 117 :: rest => (hex4 rest).filter fun r => 0xDC00 ≤ r.1 && r.1 < 0xE000
  | _ => none

/-- What follows a `\u`. -/
def unicodeEscape (s : Text) : Option (Nat × Text) :=
  (hex4 s).map fun r =>
    match if 0xD800 ≤ r.1 ∧ r.1 < 0xDC00 then lowSurrogate r.2 else none with
    | some low => (0x10000 + 1024 * (r.1 - 0xD800) + (low.1 - 0xDC00), low.2)
    | none => (r.1, r.2)

/-- The escapes of one letter. -/
def simpleEscape (c : Nat) : Option Nat :=
  if c = 34 then some 34
  else if c = 92 then some 92
  else if c = 47 then some 47
  else if c = 98 then some 8
  else if c = 102 then some 12
  else if c = 110 then some 10
  else if c = 114 then some 13
  else if c = 116 then some 9
  else none

/-- What follows a backslash. -/
def escape : Text → Option (Nat × Text)
  | [] => none
  | c :: rest =>
    match simpleEscape c with
    | some n => some (n, rest)
    | none => if c = 117 then unicodeEscape rest else none

/-- The characters of a string and its closing quote. -/
def string : Nat → Text → Option (Text × Text)
  | 0, _ => none
  | _ + 1, [] => none
  | fuel + 1, c :: rest =>
    if c = 34 then some ([], rest)
    else if c = 92 then
      (escape rest).bind fun e => (string fuel e.2).map fun r => (e.1 :: r.1, r.2)
    else if c < 32 then none
    else (string fuel rest).map fun r => (c :: r.1, r.2)

def digits (s : Text) : Text × Text := (s.takeWhile isDigit, s.dropWhile isDigit)

/-- Digits without a leading zero. -/
def integerPart : Text → Option (Text × Text)
  | [] => none
  | c :: s =>
    if c = 48 then some ([48], s)
    else if isDigit c then some (digits (c :: s)) else none

/-- A point and digits, or nothing. -/
def fraction : Text → Text × Text
  | [] => ([], [])
  | c :: s =>
    if c = 46 ∧ (digits s).1 ≠ [] then (c :: (digits s).1, (digits s).2) else ([], c :: s)

/-- One of some characters, or nothing. -/
def sign (allowed : Nat → Bool) : Text → Text × Text
  | [] => ([], [])
  | c :: s => if allowed c then ([c], s) else ([], c :: s)

/-- `e`, a sign and digits, or nothing. -/
def exponent : Text → Text × Text
  | [] => ([], [])
  | c :: s =>
    let sg := sign (fun c => c == 43 || c == 45) s
    if (c = 101 ∨ c = 69) ∧ (digits sg.2).1 ≠ [] then (c :: (sg.1 ++ (digits sg.2).1), (digits sg.2).2)
    else ([], c :: s)

def digitsValue (ds : Text) : Nat := ds.foldl (fun v d => 10 * v + (d - 48)) 0

/-- A number: an `int`, or a `float` if it has a fraction or an exponent. -/
def number (s : Text) : Option (PyValue × Text) :=
  let minus := sign (· == 45) s
  (integerPart minus.2).map fun whole =>
    let fr := fraction whole.2
    let ex := exponent fr.2
    if fr.1 = [] ∧ ex.1 = [] then
      (.int (if minus.1 = [] then digitsValue whole.1 else -digitsValue whole.1), ex.2)
    else (.float (minus.1 ++ (whole.1 ++ (fr.1 ++ ex.1))), ex.2)

def constants : List (Text × PyValue) :=
  [(chars "null", .none), (chars "true", .bool true), (chars "false", .bool false),
    (chars "NaN", .float (chars "NaN")), (chars "Infinity", .float (chars "Infinity")),
    (chars "-Infinity", .float (chars "-Infinity"))]

def constant (s : Text) : Option (PyValue × Text) :=
  (constants.find? fun c => c.1.isPrefixOf s).map fun c => (c.2, s.drop c.1.length)

mutual

/-- `scan_once`. -/
def value : Nat → Text → Option (PyValue × Text)
  | 0, _ => none
  | _ + 1, [] => none
  | fuel + 1, c :: rest =>
    if c = 34 then (string fuel rest).map fun r => (.str r.1, r.2)
    else if c = 123 then
      if (skipWs rest).head? = some 125 then some (.dict [], (skipWs rest).tail)
      else (members fuel (skipWs rest)).map fun r => (.dict r.1, r.2)
    else if c = 91 then
      if (skipWs rest).head? = some 93 then some (.list [], (skipWs rest).tail)
      else (elements fuel (skipWs rest)).map fun r => (.list r.1, r.2)
    else match constant (c :: rest) with
      | some r => some r
      | none => number (c :: rest)

def members : Nat → Text → Option (List (Text × PyValue) × Text)
  | 0, _ => none
  | fuel + 1, s =>
    match s with
    | 34 :: rest =>
      (string fuel rest).bind fun k =>
        match skipWs k.2 with
        | 58 :: rest =>
          (value fuel (skipWs rest)).bind fun v =>
            match skipWs v.2 with
            | 44 :: rest => (members fuel (skipWs rest)).map fun r => ((k.1, v.1) :: r.1, r.2)
            | 125 :: rest => some ([(k.1, v.1)], rest)
            | _ => none
        | _ => none
    | _ => none

def elements : Nat → Text → Option (List PyValue × Text)
  | 0, _ => none
  | fuel + 1, s =>
    (value fuel s).bind fun v =>
      match skipWs v.2 with
      | 44 :: rest => (elements fuel (skipWs rest)).map fun r => (v.1 :: r.1, r.2)
      | 93 :: rest => some ([v.1], rest)
      | _ => none

end

/-- `JSONDecoder.decode`; `none` stands for a `JSONDecodeError`. -/
def decodeText (s : Text) : Option PyValue :=
  match value (s.length + 1) (skipWs s) with
  | some (v, rest) => if skipWs rest = [] then some v else none
  | none => none

/-- How `json.loads` ends on bytes. -/
inductive Loaded where
  | value (v : PyValue)
  | jsonDecodeError
  | unicodeDecodeError

def loads (s : List UInt8) : Loaded :=
  match decode s (detectEncoding s) with
  | none => .unicodeDecodeError
  | some text =>
    match decodeText text with
    | none => .jsonDecodeError
    | some v => .value v

example : (match loads (CText.ascii "[\x7b\"a\": [1, -2.5e1, NaN]\x7d, null]") with
    | .value (.list [.dict [(_, .list [.int 1, .float _, .float _])], .none]) => true
    | _ => false) = true := by
  decide +kernel

/-! ## What a number reads -/

/-- Nothing that follows can continue a number. -/
def Stops (rest : Text) : Prop :=
  ∀ c ∈ rest.head?, isDigit c = false ∧ c ≠ 46 ∧ c ≠ 101 ∧ c ≠ 69

theorem digits_append {ds rest : Text} (hds : ∀ c ∈ ds, isDigit c = true)
    (hrest : ∀ c ∈ rest.head?, isDigit c = false) : digits (ds ++ rest) = (ds, rest) := by
  have htail : rest.takeWhile isDigit = [] ∧ rest.dropWhile isDigit = rest := by
    cases rest with
    | nil => exact ⟨rfl, rfl⟩
    | cons c rest => simp [hrest c rfl]
  rw [digits, List.takeWhile_append_of_pos hds, List.dropWhile_append_of_pos hds, htail.1, htail.2,
    List.append_nil]

theorem digits_split (s : Text) : s = (digits s).1 ++ (digits s).2 ∧
    ∀ c ∈ (digits s).1, isDigit c = true :=
  ⟨List.takeWhile_append_dropWhile.symm, fun _ hc => List.mem_takeWhile_imp hc⟩

/-- The characters read by a part of a number, and that they are read alike in
front of anything that `ok` admits. -/
def Takes (part : Text → Text × Text) (ok : Text → Prop) (s : Text) : Prop :=
  s = (part s).1 ++ (part s).2 ∧ ∀ rest, ok rest → part ((part s).1 ++ rest) = ((part s).1, rest)

theorem sign_absent {allowed : Nat → Bool} {s : Text} (h : (sign allowed s).1 = []) :
    sign allowed s = ([], s) := by
  cases s with
  | nil => rfl
  | cons c s =>
    simp only [sign] at h ⊢
    split at h
    · cases h
    · next hc => rw [if_neg hc]

theorem sign_takes (allowed : Nat → Bool) (s : Text) :
    Takes (sign allowed) (fun rest => (sign allowed rest).1 = []) s := by
  cases s with
  | nil => exact ⟨rfl, fun _ => sign_absent⟩
  | cons c s =>
    simp only [Takes, sign]
    split
    · next hc => exact ⟨rfl, fun rest _ => by simp [hc]⟩
    · exact ⟨rfl, fun _ => sign_absent⟩

theorem fraction_nil {rest : Text} (h : ∀ c ∈ rest.head?, c ≠ 46) : fraction rest = ([], rest) := by
  cases rest with
  | nil => rfl
  | cons c rest => rw [fraction, if_neg fun hc => h c rfl hc.1]

theorem fraction_takes (s : Text) :
    Takes fraction (fun rest => ∀ c ∈ rest.head?, isDigit c = false ∧ c ≠ 46) s := by
  have hnil : ∀ rest : Text, (∀ c ∈ rest.head?, isDigit c = false ∧ c ≠ 46) →
      fraction rest = ([], rest) := fun rest h => fraction_nil fun c hc => (h c hc).2
  cases s with
  | nil => exact ⟨rfl, hnil⟩
  | cons c s =>
    simp only [Takes, fraction]
    split
    · next hc =>
      obtain ⟨hs, hds⟩ := digits_split s
      refine ⟨congrArg (c :: ·) hs, fun rest hrest => ?_⟩
      have := digits_append hds fun d hd => (hrest d hd).1
      simp only [List.cons_append, this, hc, ne_eq, not_false_eq_true, and_self, if_true]
    · exact ⟨rfl, hnil⟩

theorem exponent_nil {rest : Text} (h : ∀ c ∈ rest.head?, c ≠ 101 ∧ c ≠ 69) :
    exponent rest = ([], rest) := by
  cases rest with
  | nil => rfl
  | cons c rest =>
    obtain ⟨h101, h69⟩ := h c rfl
    rw [exponent, if_neg fun hc => hc.1.elim h101 h69]

theorem exponent_takes (s : Text) : Takes exponent Stops s := by
  have hnil : ∀ rest : Text, Stops rest → exponent rest = ([], rest) :=
    fun rest h => exponent_nil fun c hc => (h c hc).2.2
  cases s with
  | nil => exact ⟨rfl, hnil⟩
  | cons c s =>
    simp only [Takes, exponent]
    split
    · next hc =>
      obtain ⟨hsign, hsign'⟩ := sign_takes (fun c => c == 43 || c == 45) s
      obtain ⟨hs, hds⟩ := digits_split (sign (fun c => c == 43 || c == 45) s).2
      refine ⟨?_, fun rest hrest => ?_⟩
      · rw [List.cons_append, List.append_assoc, ← hs, ← hsign]
      · have hsigned := hsign' ((digits (sign (fun c => c == 43 || c == 45) s).2).1 ++ rest) (by
          obtain ⟨d, ds, hd⟩ := List.exists_cons_of_ne_nil hc.2
          have := hds d (by rw [hd]; exact List.mem_cons_self)
          rw [hd, List.cons_append, sign, if_neg]
          rintro h
          simp only [Bool.or_eq_true, beq_iff_eq] at h
          rcases h with rfl | rfl <;> cases this)
        have hdigits := digits_append hds fun d hd => (hrest d hd).1
        simp only [List.cons_append, List.append_assoc, hsigned, hdigits]
        rw [if_pos hc]
    · exact ⟨rfl, hnil⟩

theorem integerPart_takes {s w r : Text} (h : integerPart s = some (w, r)) :
    s = w ++ r ∧ (∃ d w', w = d :: w' ∧ isDigit d = true) ∧
      ∀ rest : Text, (∀ c ∈ rest.head?, isDigit c = false) → integerPart (w ++ rest) = some (w, rest) := by
  cases s with
  | nil => cases h
  | cons c s =>
    rw [integerPart] at h
    split at h
    · next hc =>
      cases h
      subst hc
      exact ⟨rfl, ⟨48, [], rfl, rfl⟩, fun rest _ => rfl⟩
    · next h48 =>
      split at h
      · next hc =>
        obtain ⟨hs, hds⟩ := digits_split (c :: s)
        rw [Option.some.injEq, Prod.ext_iff] at h
        obtain ⟨rfl, rfl⟩ := h
        have hw : (digits (c :: s)).1 = c :: (digits s).1 := List.takeWhile_cons_of_pos hc
        refine ⟨hs, ⟨c, _, hw, hc⟩, fun rest hrest => ?_⟩
        have hdigits := digits_append hds hrest
        rw [hw, List.cons_append] at hdigits ⊢
        rw [integerPart, if_neg h48, if_pos hc, hdigits]
      · cases h

theorem sign_nil {allowed : Nat → Bool} {s : Text} (h : ∀ c ∈ s.head?, allowed c = false) :
    (sign allowed s).1 = [] := by
  cases s with
  | nil => rfl
  | cons c s => simp [sign, h c rfl]

theorem sign_minus (s : Text) : (sign (· == 45) s).1 = [] ∨ (sign (· == 45) s).1 = [45] := by
  cases s with
  | nil => exact .inl rfl
  | cons c s =>
    rw [sign]
    split
    · next hc => exact .inr (by rw [eq_of_beq hc])
    · exact .inl rfl

theorem fraction_head (s : Text) : ∀ c ∈ (fraction s).1.head?, c = 46 := by
  cases s with
  | nil => simp [fraction]
  | cons c s =>
    rw [fraction]
    split
    · next hc => simpa [eq_comm] using hc.1
    · simp

theorem exponent_head (s : Text) : ∀ c ∈ (exponent s).1.head?, c = 101 ∨ c = 69 := by
  cases s with
  | nil => simp [exponent]
  | cons c s =>
    rw [exponent]
    split
    · next hc => simpa using hc.1
    · simp

/-- What holds of the first character of two texts holds of that of both together. -/
theorem head_append {p : Nat → Prop} {x y : Text} (hx : ∀ c ∈ x.head?, p c) (hy : ∀ c ∈ y.head?, p c) :
    ∀ c ∈ (x ++ y).head?, p c := by
  cases x with
  | nil => exact hy
  | cons d x => exact hx

/-- The first characters of a number are no others' than a number's. -/
def Numeric (t : Text) : Prop :=
  (∃ d t', t = d :: t' ∧ isDigit d = true) ∨ ∃ d t', t = 45 :: d :: t' ∧ isDigit d = true

theorem number_takes {s r : Text} {v : PyValue} (h : number s = some (v, r)) :
    ∃ t, s = t ++ r ∧ Numeric t ∧ ∀ rest, Stops rest → number (t ++ rest) = some (v, rest) := by
  obtain ⟨⟨w, s₂⟩, hw, hv⟩ := Option.map_eq_some_iff.mp h
  obtain ⟨hminus, hminus'⟩ := sign_takes (· == 45) s
  obtain ⟨hwhole, ⟨d, w', hwd, hd⟩, hwhole'⟩ := integerPart_takes hw
  obtain ⟨hfr, hfr'⟩ := fraction_takes s₂
  obtain ⟨hex, hex'⟩ := exponent_takes (fraction s₂).2
  have hfrHead := fraction_head s₂
  have hexHead := exponent_head (fraction s₂).2
  have hsg := sign_minus s
  generalize (sign (· == 45) s).1 = sg at *
  generalize (sign (· == 45) s).2 = s₁ at *
  dsimp only at hv
  generalize (fraction s₂).1 = fr at *
  generalize (fraction s₂).2 = s₃ at *
  generalize (exponent s₃).1 = ex at *
  generalize hr : (exponent s₃).2 = s₄ at *
  have hrest : s₄ = r := by
    split at hv <;> exact congrArg Prod.snd hv
  subst hrest
  refine ⟨sg ++ (w ++ (fr ++ ex)), ?_, ?_, fun rest hrest => ?_⟩
  · rw [hminus, hwhole, hfr, hex]
    simp
  · rw [hwd]
    rcases hsg with rfl | rfl
    · exact .inl ⟨d, _, rfl, hd⟩
    · exact .inr ⟨d, _, rfl, hd⟩
  · have hafterFr : ∀ c ∈ (ex ++ rest).head?, isDigit c = false ∧ c ≠ 46 :=
      head_append (fun c hc => by rcases hexHead c hc with rfl | rfl <;> decide)
        fun c hc => ⟨(hrest c hc).1, (hrest c hc).2.1⟩
    have hafterW : ∀ c ∈ (fr ++ (ex ++ rest)).head?, isDigit c = false :=
      head_append (fun c hc => by rw [hfrHead c hc]; decide) fun c hc => (hafterFr c hc).1
    have hsigned := hminus' (w ++ (fr ++ (ex ++ rest))) (sign_nil (by
      rw [hwd]
      rintro c ⟨⟩
      exact beq_eq_false_iff_ne.mpr fun h45 => by rw [h45] at hd; cases hd))
    rw [number]
    simp only [List.append_assoc, hsigned, hwhole' _ hafterW, hfr' _ hafterFr, hex' _ hrest,
      Option.map_some]
    by_cases hint : fr = [] ∧ ex = []
    · rw [if_pos hint] at hv ⊢
      cases hv
      rfl
    · rw [if_neg hint] at hv ⊢
      cases hv
      rfl

/-! ## What a constant and a string read -/

theorem constant_takes {s r : Text} {v : PyValue} (h : constant s = some (v, r)) :
    ∃ c t, s = c :: t ++ r ∧ (c ≠ 34 ∧ c ≠ 123 ∧ c ≠ 91) ∧ (isWs c = false ∧ c ≠ 93) ∧
      ∀ rest, constant (c :: t ++ rest) = some (v, rest) := by
  obtain ⟨⟨t, u⟩, hfind, hv⟩ := Option.map_eq_some_iff.mp h
  cases hv
  have hpre : t.isPrefixOf s = true := by simpa using List.find?_some hfind
  obtain ⟨r, rfl⟩ := List.isPrefixOf_iff_prefix.mp hpre
  have hmem : (t, u) ∈ constants := List.mem_of_find?_eq_some hfind
  rw [List.drop_left]
  simp only [constants, List.mem_cons, List.mem_nil_iff, or_false, Prod.mk.injEq] at hmem
  rcases hmem with ⟨rfl, rfl⟩ | ⟨rfl, rfl⟩ | ⟨rfl, rfl⟩ | ⟨rfl, rfl⟩ | ⟨rfl, rfl⟩ | ⟨rfl, rfl⟩
  all_goals exact ⟨_, _, rfl, by decide, by decide, fun rest => rfl⟩

/-- No constant starts with a digit, and only one with a minus sign. -/
theorem constant_numeric {t : Text} (h : Numeric t) (rest : Text) : constant (t ++ rest) = none := by
  have hfirst : ∀ d, isDigit d = true → ∀ c ∈ [110, 116, 102, 78, 73], (c == d) = false := by
    intro d hd c hc
    refine beq_eq_false_iff_ne.mpr ?_
    rintro rfl
    simp only [List.mem_cons, List.mem_nil_iff, or_false] at hc
    rcases hc with rfl | rfl | rfl | rfl | rfl <;> cases hd
  rcases h with ⟨d, t, rfl, hd⟩ | ⟨d, t, rfl, hd⟩
  · have h45 : ((45 : Nat) == d) = false := beq_eq_false_iff_ne.mpr (by rintro rfl; cases hd)
    have := hfirst d hd
    simp [constant, constants, chars, List.isPrefixOf, h45, this]
  · have := hfirst d hd
    simp [constant, constants, chars, List.isPrefixOf, this]

theorem hex4_takes {s r : Text} {n : Nat} (h : hex4 s = some (n, r)) :
    ∃ p, s = p ++ r ∧ 34 ∉ p ∧ ∀ rest, hex4 (p ++ rest) = some (n, rest) := by
  match s with
  | [] | [_] | [_, _] | [_, _, _] => cases h
  | a :: b :: c :: d :: s =>
    simp only [hex4, Option.bind_eq_bind, Option.bind_eq_some_iff] at h
    obtain ⟨x, ha, y, hb, z, hc, w, hd, h⟩ := h
    cases h
    refine ⟨[a, b, c, d], rfl, ?_, fun rest => by simp [hex4, ha, hb, hc, hd]⟩
    have hquote : hexVal 34 = none := rfl
    simp only [List.mem_cons, List.mem_nil_iff, or_false, not_or]
    refine ⟨?_, ?_, ?_, ?_⟩ <;> rintro rfl <;> simp_all

theorem lowSurrogate_takes {s r : Text} {n : Nat} (h : lowSurrogate s = some (n, r)) :
    ∃ p, s = p ++ r ∧ 34 ∉ p ∧ ∀ rest, lowSurrogate (p ++ rest) = some (n, rest) := by
  unfold lowSurrogate at h
  split at h
  · next s =>
    rw [Option.filter_eq_some_iff] at h
    obtain ⟨p, rfl, hp, hread⟩ := hex4_takes h.1
    refine ⟨92 :: 117 :: p, rfl, by simp [hp], fun rest => ?_⟩
    rw [List.cons_append, List.cons_append, lowSurrogate, hread, Option.filter_eq_some_iff]
    exact ⟨rfl, h.2⟩
  · cases h

/-- Whether a pair is completed is settled in front of the closing quote. -/
theorem lowSurrogate_quote {x r rest : Text} (h : lowSurrogate (x ++ 34 :: r) = none) :
    lowSurrogate (x ++ 34 :: rest) = none := by
  cases hlow : lowSurrogate (x ++ 34 :: rest) with
  | none => rfl
  | some low =>
    obtain ⟨p, hsplit, hp, hread⟩ := lowSurrogate_takes hlow
    obtain ⟨x', rfl, -⟩ := JsonText.append_before hsplit.symm hp
    rw [List.append_assoc, hread] at h
    cases h

theorem unicodeEscape_takes {s x r : Text} {n : Nat} (h : unicodeEscape s = some (n, x ++ 34 :: r)) :
    ∃ p, s = p ++ (x ++ 34 :: r) ∧
      ∀ rest, unicodeEscape (p ++ (x ++ 34 :: rest)) = some (n, x ++ 34 :: rest) := by
  obtain ⟨⟨m, s₁⟩, hhex, hpair⟩ := Option.map_eq_some_iff.mp h
  obtain ⟨p, rfl, -, hread⟩ := hex4_takes hhex
  dsimp only at hpair
  by_cases hhigh : 0xD800 ≤ m ∧ m < 0xDC00
  · rw [if_pos hhigh] at hpair
    cases hlow : lowSurrogate s₁ with
    | some low =>
      obtain ⟨q, rfl, -, hlowRead⟩ := lowSurrogate_takes (n := low.1) (r := low.2) hlow
      rw [hlow] at hpair
      obtain ⟨rfl, hr⟩ := Prod.mk.injEq .. ▸ hpair
      refine ⟨p ++ q, by rw [List.append_assoc, hr], fun rest => ?_⟩
      simp only [unicodeEscape, List.append_assoc, hread, Option.map_some, if_pos hhigh, hlowRead]
    | none =>
      rw [hlow] at hpair
      obtain ⟨rfl, rfl⟩ := Prod.mk.injEq .. ▸ hpair
      refine ⟨p, rfl, fun rest => ?_⟩
      simp only [unicodeEscape, hread, Option.map_some, if_pos hhigh, lowSurrogate_quote hlow]
  · rw [if_neg hhigh] at hpair
    obtain ⟨rfl, rfl⟩ := Prod.mk.injEq .. ▸ hpair
    refine ⟨p, rfl, fun rest => ?_⟩
    simp only [unicodeEscape, hread, Option.map_some, if_neg hhigh]

theorem escape_takes {s x r : Text} {n : Nat} (h : escape s = some (n, x ++ 34 :: r)) :
    ∃ p, s = p ++ (x ++ 34 :: r) ∧
      ∀ rest, escape (p ++ (x ++ 34 :: rest)) = some (n, x ++ 34 :: rest) := by
  cases s with
  | nil => cases h
  | cons c s =>
    rw [escape] at h
    cases hsimple : simpleEscape c with
    | some m =>
      rw [hsimple] at h
      cases h
      exact ⟨[c], rfl, fun rest => by simp [escape, hsimple]⟩
    | none =>
      rw [hsimple] at h
      dsimp only at h
      split at h
      · next hc =>
        obtain ⟨p, rfl, hread⟩ := unicodeEscape_takes h
        refine ⟨c :: p, rfl, fun rest => ?_⟩
        rw [List.cons_append, escape, hsimple]
        exact (if_pos hc).trans (hread rest)
      · cases h

/-- `text` and a closing quote are the rest of a string that is read as `decoded`. -/
def StringText (text decoded : Text) : Prop :=
  ∀ fuel rest, text.length < fuel → string fuel (text ++ 34 :: rest) = some (decoded, rest)

theorem string_takes {fuel : Nat} : ∀ {s d r : Text}, string fuel s = some (d, r) →
    ∃ x, s = x ++ 34 :: r ∧ StringText x d := by
  induction fuel with
  | zero => intro s d r h; cases h
  | succ fuel ih =>
    intro s d r h
    cases s with
    | nil => cases h
    | cons c s =>
      rw [string] at h
      split_ifs at h with h34 h92 h32
      · cases h
        refine ⟨[], by rw [h34]; rfl, fun fuel rest hfuel => ?_⟩
        obtain ⟨k, rfl⟩ := Nat.exists_eq_succ_of_ne_zero (Nat.ne_of_gt hfuel)
        rfl
      · simp only [Option.bind_eq_some_iff, Option.map_eq_some_iff] at h
        obtain ⟨⟨n, s₁⟩, he, ⟨d', r'⟩, hs, heq⟩ := h
        cases heq
        obtain ⟨x, rfl, hx⟩ := ih hs
        obtain ⟨p, rfl, hread⟩ := escape_takes he
        refine ⟨c :: (p ++ x), by simp, fun fuel rest hfuel => ?_⟩
        obtain ⟨k, rfl⟩ := Nat.exists_eq_succ_of_ne_zero (Nat.ne_of_gt (Nat.zero_lt_of_lt hfuel))
        simp only [List.length_cons, List.length_append] at hfuel
        simp only [List.cons_append, List.append_assoc, string, if_neg h34, if_pos h92, hread,
          Option.bind_some, hx k rest (by omega), Option.map_some]
      · obtain ⟨⟨d', r'⟩, hs, heq⟩ := Option.map_eq_some_iff.mp h
        cases heq
        obtain ⟨x, rfl, hx⟩ := ih hs
        refine ⟨c :: x, rfl, fun fuel rest hfuel => ?_⟩
        obtain ⟨k, rfl⟩ := Nat.exists_eq_succ_of_ne_zero (Nat.ne_of_gt (Nat.zero_lt_of_lt hfuel))
        simp only [List.cons_append, string, if_neg h34, if_neg h92, if_neg h32,
          hx k rest (Nat.lt_of_succ_lt_succ hfuel), Option.map_some]

/-! ## What a value reads -/

/-- White space only. -/
def Blank (ws : Text) : Prop := ∀ c ∈ ws, isWs c = true

theorem skipWs_blank {ws x : Text} (hws : Blank ws) (hx : ∀ c ∈ x.head?, isWs c = false) :
    skipWs (ws ++ x) = x := by
  rw [skipWs, List.dropWhile_append_of_pos hws]
  cases x with
  | nil => rfl
  | cons c x => rw [List.dropWhile_cons_of_neg (by simp [hx c rfl])]

theorem skipWs_split (s : Text) : ∃ ws, s = ws ++ skipWs s ∧ Blank ws ∧
    ∀ c ∈ (skipWs s).head?, isWs c = false := by
  refine ⟨s.takeWhile isWs, List.takeWhile_append_dropWhile.symm,
    fun _ hc => List.mem_takeWhile_imp hc, fun c hc => ?_⟩
  have hne : skipWs s ≠ [] := by
    rintro h
    rw [h] at hc
    cases hc
  have hhead := List.head_dropWhile_not isWs hne
  rw [List.head?_eq_some_head hne, Option.mem_some_iff] at hc
  rw [← hc]
  exact hhead

/-- A character that a value or a list of them can start with. -/
def Starts (t : Text) : Prop := ∃ c t', t = c :: t' ∧ isWs c = false ∧ c ≠ 93

theorem Starts.head {t : Text} (h : Starts t) (rest : Text) : ∀ c ∈ (t ++ rest).head?, isWs c = false := by
  obtain ⟨c, t, rfl, hc, -⟩ := h
  rintro d ⟨⟩
  exact hc

/-- `text` is read as `v`. -/
structure Denotes (text : Text) (v : PyValue) : Prop where
  starts : Starts text
  reads : ∀ fuel rest, text.length < fuel → Stops rest → value fuel (text ++ rest) = some (v, rest)

/-- `text` is the rest of a dictionary with these items. -/
structure MembersText (text : Text) (ms : List (Text × PyValue)) : Prop where
  starts : ∃ t, text = 34 :: t
  reads : ∀ fuel rest, text.length < fuel → members fuel (text ++ rest) = some (ms, rest)

/-- `text` is the rest of a list with these items. -/
structure ElementsText (text : Text) (items : List PyValue) : Prop where
  starts : Starts text
  reads : ∀ fuel rest, text.length < fuel → elements fuel (text ++ rest) = some (items, rest)

theorem Blank.stops {ws : Text} (hws : Blank ws) : Stops ws := by
  intro c hc
  have hc := hws c (List.mem_of_mem_head? hc)
  simp only [isWs, Bool.or_eq_true, beq_iff_eq] at hc
  rcases hc with ((rfl | rfl) | rfl) | rfl <;> decide

/-- White space and a punctuation mark end a number. -/
theorem stops_mark {ws : Text} (hws : Blank ws) {c : Nat}
    (hc : isDigit c = false ∧ c ≠ 46 ∧ c ≠ 101 ∧ c ≠ 69) (rest : Text) : Stops (ws ++ c :: rest) :=
  head_append hws.stops fun d hd => by cases hd; exact hc

theorem skipWs_eq_nil {s : Text} : skipWs s = [] ↔ Blank s := by
  simp [skipWs, Blank]

theorem skipWs_mark {ws : Text} (hws : Blank ws) {c : Nat} (hc : isWs c = false) (rest : Text) :
    skipWs (ws ++ c :: rest) = c :: rest :=
  skipWs_blank hws fun d hd => by cases hd; exact hc

theorem Denotes.last {t ws : Text} {v : PyValue} (ht : Denotes t v) (hws : Blank ws) :
    ElementsText (t ++ (ws ++ [93])) [v] where
  starts := by
    obtain ⟨c, t, rfl, hc⟩ := ht.starts
    exact ⟨c, _, rfl, hc⟩
  reads fuel rest hfuel := by
    obtain ⟨k, rfl⟩ := Nat.exists_eq_succ_of_ne_zero (Nat.ne_of_gt (Nat.zero_lt_of_lt hfuel))
    simp only [List.length_append, List.length_singleton] at hfuel
    have hmark := stops_mark hws (show isDigit 93 = false ∧ _ by decide) rest
    simp only [List.append_assoc, List.singleton_append, elements, ht.reads k _ (by omega) hmark,
      Option.bind_some, skipWs_mark hws (show isWs 93 = false by decide)]

theorem Denotes.cons {t ws ws' u : Text} {v : PyValue} {items : List PyValue} (ht : Denotes t v)
    (hws : Blank ws) (hws' : Blank ws') (hu : ElementsText u items) :
    ElementsText (t ++ (ws ++ 44 :: (ws' ++ u))) (v :: items) where
  starts := by
    obtain ⟨c, t, rfl, hc⟩ := ht.starts
    exact ⟨c, _, rfl, hc⟩
  reads fuel rest hfuel := by
    obtain ⟨k, rfl⟩ := Nat.exists_eq_succ_of_ne_zero (Nat.ne_of_gt (Nat.zero_lt_of_lt hfuel))
    simp only [List.length_append, List.length_cons] at hfuel
    have hmark := stops_mark hws (show isDigit 44 = false ∧ _ by decide) (ws' ++ (u ++ rest))
    simp only [List.append_assoc, List.cons_append, elements, ht.reads k _ (by omega) hmark,
      Option.bind_some, skipWs_mark hws (show isWs 44 = false by decide),
      skipWs_blank hws' (hu.starts.head rest), hu.reads k rest (by omega), Option.map_some]

theorem ElementsText.denotes {ws u : Text} {items : List PyValue} (hws : Blank ws)
    (hu : ElementsText u items) : Denotes (91 :: (ws ++ u)) (.list items) where
  starts := ⟨91, _, rfl, by decide, by decide⟩
  reads fuel rest hfuel _ := by
    obtain ⟨k, rfl⟩ := Nat.exists_eq_succ_of_ne_zero (Nat.ne_of_gt (Nat.zero_lt_of_lt hfuel))
    simp only [List.length_append, List.length_cons] at hfuel
    have hhead : (u ++ rest).head? ≠ some 93 := by
      obtain ⟨c, u, rfl, -, hc⟩ := hu.starts
      simpa using hc
    simp only [List.cons_append, List.append_assoc, value, if_neg (show (91 : Nat) ≠ 34 by decide),
      if_neg (show (91 : Nat) ≠ 123 by decide), if_true, skipWs_blank hws (hu.starts.head rest),
      if_neg hhead, hu.reads k rest (by omega), Option.map_some]

/-- A key, a colon and a value, with white space around the colon. -/
def itemText (key ws ws' t : Text) : Text := 34 :: (key ++ 34 :: (ws ++ 58 :: (ws' ++ t)))

theorem members_item {key k ws ws' t rest : Text} {v : PyValue} (hkey : StringText key k)
    (hws : Blank ws) (hws' : Blank ws') (ht : Denotes t v) {fuel : Nat}
    (hfuel : (itemText key ws ws' t).length < fuel + 1) (hrest : Stops rest) :
    members (fuel + 1) (itemText key ws ws' t ++ rest) =
      match skipWs rest with
      | 44 :: rest => (members fuel (skipWs rest)).map fun r => ((k, v) :: r.1, r.2)
      | 125 :: rest => some ([(k, v)], rest)
      | _ => none := by
  simp only [itemText, List.length_cons, List.length_append] at hfuel
  simp only [itemText, List.cons_append, List.append_assoc, members,
    hkey fuel (ws ++ 58 :: (ws' ++ (t ++ rest))) (by omega), Option.bind_some,
    skipWs_mark hws (show isWs 58 = false by decide), skipWs_blank hws' (ht.starts.head rest),
    ht.reads fuel rest (by omega) hrest]

theorem MembersText.last {key k ws ws' t wsEnd : Text} {v : PyValue} (hkey : StringText key k)
    (hws : Blank ws) (hws' : Blank ws') (ht : Denotes t v) (hend : Blank wsEnd) :
    MembersText (itemText key ws ws' t ++ (wsEnd ++ [125])) [(k, v)] where
  starts := ⟨_, rfl⟩
  reads fuel rest hfuel := by
    obtain ⟨n, rfl⟩ := Nat.exists_eq_succ_of_ne_zero (Nat.ne_of_gt (Nat.zero_lt_of_lt hfuel))
    rw [List.length_append] at hfuel
    have hmark := stops_mark hend (show isDigit 125 = false ∧ _ by decide) rest
    simp only [List.append_assoc, List.singleton_append]
    rw [members_item hkey hws hws' ht (by omega) hmark,
      skipWs_mark hend (show isWs 125 = false by decide)]
    rfl

theorem MembersText.cons {key k ws ws' t wsEnd wsNext u : Text} {v : PyValue}
    {ms : List (Text × PyValue)} (hkey : StringText key k) (hws : Blank ws) (hws' : Blank ws')
    (ht : Denotes t v) (hend : Blank wsEnd) (hnext : Blank wsNext) (hu : MembersText u ms) :
    MembersText (itemText key ws ws' t ++ (wsEnd ++ 44 :: (wsNext ++ u))) ((k, v) :: ms) where
  starts := ⟨_, rfl⟩
  reads fuel rest hfuel := by
    obtain ⟨n, rfl⟩ := Nat.exists_eq_succ_of_ne_zero (Nat.ne_of_gt (Nat.zero_lt_of_lt hfuel))
    simp only [List.length_append, List.length_cons] at hfuel
    have hmark := stops_mark hend (show isDigit 44 = false ∧ _ by decide) (wsNext ++ (u ++ rest))
    have hhead : ∀ c ∈ (u ++ rest).head?, isWs c = false := by
      obtain ⟨u, rfl⟩ := hu.starts
      rintro c ⟨⟩
      decide
    simp only [List.append_assoc, List.cons_append]
    rw [members_item hkey hws hws' ht (by omega) hmark,
      skipWs_mark hend (show isWs 44 = false by decide)]
    simp only [skipWs_blank hnext hhead, hu.reads n rest (by omega), Option.map_some]

/-- More items, without white space, in front of the last ones. -/
theorem MembersText.append {items : List (Text × Text × PyValue)} {u : Text}
    {ms : List (Text × PyValue)} (h : ∀ i ∈ items, StringText i.1 i.1 ∧ Denotes i.2.1 i.2.2)
    (hu : MembersText u ms) :
    MembersText (items.flatMap (fun i => itemText i.1 [] [] i.2.1 ++ [44]) ++ u)
      (items.map (fun i => (i.1, i.2.2)) ++ ms) := by
  have hblank : Blank [] := List.forall_mem_nil _
  induction items with
  | nil => exact hu
  | cons i items ih =>
    obtain ⟨hkey, hvalue⟩ := h i List.mem_cons_self
    have hrest := ih fun j hj => h j (List.mem_cons_of_mem i hj)
    have hall := MembersText.cons hkey hblank hblank hvalue hblank hblank hrest
    simpa using hall

theorem MembersText.denotes {ws u : Text} {ms : List (Text × PyValue)} (hws : Blank ws)
    (hu : MembersText u ms) : Denotes (123 :: (ws ++ u)) (.dict ms) where
  starts := ⟨123, _, rfl, by decide, by decide⟩
  reads fuel rest hfuel _ := by
    obtain ⟨n, rfl⟩ := Nat.exists_eq_succ_of_ne_zero (Nat.ne_of_gt (Nat.zero_lt_of_lt hfuel))
    simp only [List.length_append, List.length_cons] at hfuel
    obtain ⟨u, rfl⟩ := hu.starts
    have hskip : skipWs (ws ++ (34 :: u ++ rest)) = 34 :: u ++ rest :=
      skipWs_blank hws fun c hc => by cases hc; decide
    simp only [List.cons_append, List.append_assoc] at hskip ⊢
    have hread := hu.reads n rest (by omega)
    rw [List.cons_append] at hread
    simp only [value, if_neg (show (123 : Nat) ≠ 34 by decide), if_true, hskip, hread,
      List.head?_cons, Option.some.injEq, if_neg (show (34 : Nat) ≠ 125 by decide), Option.map_some]

/-- A bracket that is closed again at once. -/
theorem denotes_empty {ws : Text} (hws : Blank ws) :
    Denotes (123 :: (ws ++ [125])) (.dict []) ∧ Denotes (91 :: (ws ++ [93])) (.list []) := by
  refine ⟨⟨⟨123, _, rfl, by decide, by decide⟩, fun fuel rest hfuel _ => ?_⟩,
    ⟨⟨91, _, rfl, by decide, by decide⟩, fun fuel rest hfuel _ => ?_⟩⟩
  · obtain ⟨n, rfl⟩ := Nat.exists_eq_succ_of_ne_zero (Nat.ne_of_gt (Nat.zero_lt_of_lt hfuel))
    simp [value, skipWs_mark hws (show isWs 125 = false by decide)]
  · obtain ⟨n, rfl⟩ := Nat.exists_eq_succ_of_ne_zero (Nat.ne_of_gt (Nat.zero_lt_of_lt hfuel))
    simp [value, skipWs_mark hws (show isWs 93 = false by decide)]

theorem StringText.denotes {x d : Text} (hx : StringText x d) : Denotes (34 :: (x ++ [34])) (.str d) where
  starts := ⟨34, _, rfl, by decide, by decide⟩
  reads fuel rest hfuel _ := by
    obtain ⟨n, rfl⟩ := Nat.exists_eq_succ_of_ne_zero (Nat.ne_of_gt (Nat.zero_lt_of_lt hfuel))
    simp only [List.length_cons, List.length_append, List.length_nil] at hfuel
    simp only [List.cons_append, List.append_assoc, List.nil_append, value, if_true,
      hx n rest (by omega), Option.map_some]

/-- What each of the three readers takes off the front, at some fuel. -/
structure TakesAt (fuel : Nat) : Prop where
  value : ∀ {s r : Text} {v : PyValue}, value fuel s = some (v, r) → ∃ t, s = t ++ r ∧ Denotes t v
  members : ∀ {s r : Text} {ms : List (Text × PyValue)}, members fuel s = some (ms, r) →
    ∃ t, s = t ++ r ∧ MembersText t ms
  elements : ∀ {s r : Text} {items : List PyValue}, elements fuel s = some (items, r) →
    ∃ t, s = t ++ r ∧ ElementsText t items

theorem Numeric.head {t : Text} (h : Numeric t) : ∃ c t', t = c :: t' ∧
    (c ≠ 34 ∧ c ≠ 123 ∧ c ≠ 91) ∧ isWs c = false ∧ c ≠ 93 := by
  rcases h with ⟨d, t, rfl, hd⟩ | ⟨d, t, rfl, -⟩
  · refine ⟨d, t, rfl, ?_⟩
    simp only [isDigit, Bool.and_eq_true, decide_eq_true_eq] at hd
    refine ⟨by omega, ?_, by omega⟩
    simp only [isWs, Bool.or_eq_false_iff, beq_eq_false_iff_ne]
    omega
  · exact ⟨45, d :: t, rfl, by decide⟩

/-- A constant or a number. -/
theorem scalar_takes {c : Nat} {s r : Text} {v : PyValue}
    (h : constant (c :: s) = some (v, r) ∨ number (c :: s) = some (v, r)) :
    ∃ t, c :: s = t ++ r ∧ Denotes t v := by
  have hvalue {d : Nat} {t rest : Text} (hd : d ≠ 34 ∧ d ≠ 123 ∧ d ≠ 91) (fuel : Nat) :
      value (fuel + 1) (d :: t ++ rest) = match constant (d :: t ++ rest) with
        | some r => some r
        | none => number (d :: t ++ rest) := by
    rw [List.cons_append, value, if_neg hd.1, if_neg hd.2.1, if_neg hd.2.2]
  rcases h with h | h
  · obtain ⟨d, t, hs, hd, hstart, hread⟩ := constant_takes h
    refine ⟨d :: t, hs, ⟨d, t, rfl, hstart⟩, fun fuel rest hfuel _ => ?_⟩
    obtain ⟨k, rfl⟩ := Nat.exists_eq_succ_of_ne_zero (Nat.ne_of_gt (Nat.zero_lt_of_lt hfuel))
    rw [hvalue hd, hread]
  · obtain ⟨t, hs, hnumeric, hread⟩ := number_takes h
    obtain ⟨d, t, rfl, hd, hstart⟩ := hnumeric.head
    refine ⟨d :: t, hs, ⟨d, t, rfl, hstart⟩, fun fuel rest hfuel hrest => ?_⟩
    obtain ⟨k, rfl⟩ := Nat.exists_eq_succ_of_ne_zero (Nat.ne_of_gt (Nat.zero_lt_of_lt hfuel))
    rw [hvalue hd, constant_numeric hnumeric]
    exact hread rest hrest

theorem TakesAt.succ {fuel : Nat} (ih : TakesAt fuel) : TakesAt (fuel + 1) where
  value {s r v} h := by
    cases s with
    | nil => cases h
    | cons c s =>
      rw [PyJson.value] at h
      obtain ⟨ws, hs, hws, -⟩ := skipWs_split s
      split_ifs at h with h34 h123 hempty h91 hempty
      · obtain ⟨⟨d, r'⟩, hd, heq⟩ := Option.map_eq_some_iff.mp h
        cases heq
        obtain ⟨x, rfl, hx⟩ := string_takes hd
        exact ⟨34 :: (x ++ [34]), by simp [h34], hx.denotes⟩
      · cases h
        obtain ⟨r, hr⟩ := List.head?_eq_some_iff.mp hempty
        rw [hr] at hs
        exact ⟨123 :: (ws ++ [125]), by rw [hr, hs, h123]; simp, (denotes_empty hws).1⟩
      · obtain ⟨⟨ms, r'⟩, hms, heq⟩ := Option.map_eq_some_iff.mp h
        cases heq
        obtain ⟨u, hu, hms⟩ := ih.members hms
        rw [hu] at hs
        exact ⟨123 :: (ws ++ u), by rw [hs, h123]; simp, hms.denotes hws⟩
      · cases h
        obtain ⟨r, hr⟩ := List.head?_eq_some_iff.mp hempty
        rw [hr] at hs
        exact ⟨91 :: (ws ++ [93]), by rw [hr, hs, h91]; simp, (denotes_empty hws).2⟩
      · obtain ⟨⟨items, r'⟩, hitems, heq⟩ := Option.map_eq_some_iff.mp h
        cases heq
        obtain ⟨u, hu, hitems⟩ := ih.elements hitems
        rw [hu] at hs
        exact ⟨91 :: (ws ++ u), by rw [hs, h91]; simp, hitems.denotes hws⟩
      · split at h
        · next u hconstant =>
          rw [h] at hconstant
          exact scalar_takes (.inl hconstant)
        · exact scalar_takes (.inr h)
  members {s r ms} h := by
    rw [PyJson.members.eq_def] at h
    dsimp only at h
    split at h
    · next s =>
      rw [Option.bind_eq_some_iff] at h
      obtain ⟨⟨key, s₁⟩, hkey, h⟩ := h
      obtain ⟨x, rfl, hx⟩ := string_takes hkey
      obtain ⟨ws, hs₁, hws, -⟩ := skipWs_split s₁
      split at h
      · next s₂ hcolon =>
        rw [Option.bind_eq_some_iff] at h
        obtain ⟨⟨v, s₃⟩, hv, h⟩ := h
        obtain ⟨ws', hs₂, hws', -⟩ := skipWs_split s₂
        obtain ⟨t, hst, ht⟩ := ih.value hv
        obtain ⟨wsEnd, hs₃, hend, -⟩ := skipWs_split s₃
        rw [hs₁, hcolon, hs₂, hst, hs₃]
        split at h
        · next s₄ hcomma =>
          obtain ⟨⟨ms', r'⟩, hms, heq⟩ := Option.map_eq_some_iff.mp h
          cases heq
          obtain ⟨wsNext, hs₄, hnext, -⟩ := skipWs_split s₄
          obtain ⟨u, hu, hms⟩ := ih.members hms
          refine ⟨_, ?_, MembersText.cons hx hws hws' ht hend hnext hms⟩
          rw [hcomma, hs₄, hu]
          simp [itemText]
        · next s₄ hbrace =>
          cases h
          refine ⟨_, ?_, MembersText.last hx hws hws' ht hend⟩
          rw [hbrace]
          simp [itemText]
        · cases h
      · cases h
    · cases h
  elements {s r items} h := by
    rw [PyJson.elements, Option.bind_eq_some_iff] at h
    obtain ⟨⟨v, s₁⟩, hv, h⟩ := h
    obtain ⟨t, rfl, ht⟩ := ih.value hv
    obtain ⟨ws, hs, hws, -⟩ := skipWs_split s₁
    split at h
    · next rest hskip =>
      obtain ⟨⟨vs, r'⟩, hvs, heq⟩ := Option.map_eq_some_iff.mp h
      cases heq
      obtain ⟨ws', hrest, hws', -⟩ := skipWs_split rest
      obtain ⟨u, hu, hvs⟩ := ih.elements hvs
      refine ⟨t ++ (ws ++ 44 :: (ws' ++ u)), ?_, ht.cons hws hws' hvs⟩
      rw [hs, hskip, hrest, hu]
      simp
    · next rest hskip =>
      cases h
      refine ⟨t ++ (ws ++ [93]), ?_, ht.last hws⟩
      rw [hs, hskip]
      simp
    · cases h

theorem takesAt (fuel : Nat) : TakesAt fuel := by
  induction fuel with
  | zero => constructor <;> intro _ _ _ h <;> cases h
  | succ fuel ih => exact ih.succ

/-- A document is a value with white space around it. -/
theorem decodeText_eq_some {s : Text} {v : PyValue} : decodeText s = some v ↔
    ∃ ws t ws', s = ws ++ (t ++ ws') ∧ Blank ws ∧ Denotes t v ∧ Blank ws' := by
  constructor
  · intro h
    unfold decodeText at h
    split at h
    · next v' r hread =>
      split_ifs at h with hr
      cases h
      obtain ⟨ws, hs, hws, -⟩ := skipWs_split s
      obtain ⟨t, ht, hdenotes⟩ := (takesAt _).value hread
      exact ⟨ws, t, r, ht ▸ hs, hws, hdenotes, skipWs_eq_nil.mp hr⟩
    · cases h
  · rintro ⟨ws, t, ws', rfl, hws, ht, hws'⟩
    have hread := ht.reads ((ws ++ (t ++ ws')).length + 1) ws'
      (by simp only [List.length_append]; omega) hws'.stops
    simp only [decodeText, skipWs_blank hws (ht.starts.head ws'), hread, skipWs_eq_nil.mpr hws',
      if_true]

/-- No more fuel than `decodeText` has reads more. -/
theorem decodeText_iff {s : Text} {v : PyValue} : decodeText s = some v ↔
    ∃ fuel r, value fuel (skipWs s) = some (v, r) ∧ Blank r := by
  rw [decodeText_eq_some]
  constructor
  · rintro ⟨ws, t, ws', rfl, hws, ht, hws'⟩
    refine ⟨t.length + 1, ws', ?_, hws'⟩
    rw [skipWs_blank hws (ht.starts.head ws')]
    exact ht.reads _ ws' (Nat.lt_succ_self _) hws'.stops
  · rintro ⟨fuel, r, hread, hr⟩
    obtain ⟨ws, hs, hws, -⟩ := skipWs_split s
    obtain ⟨t, ht, hdenotes⟩ := (takesAt fuel).value hread
    exact ⟨ws, t, r, ht ▸ hs, hws, hdenotes, hr⟩

theorem ElementsText.intercalate {texts : List Text} {values : List PyValue} (hne : texts ≠ [])
    (h : List.Forall₂ (fun text v => decodeText text = some v) texts values) :
    ∃ ws u, List.intercalate [44] texts ++ [93] = ws ++ u ∧ Blank ws ∧ ElementsText u values := by
  induction h with
  | nil => exact absurd rfl hne
  | cons hfirst hrest ih =>
    obtain ⟨ws, t, ws', rfl, hws, ht, hws'⟩ := decodeText_eq_some.mp hfirst
    cases hrest with
    | nil => exact ⟨ws, _, by simp, hws, ht.last hws'⟩
    | cons hnext hlater =>
      obtain ⟨wsNext, u, hu, hnextBlank, helements⟩ := ih (List.cons_ne_nil _ _)
      refine ⟨ws, t ++ (ws' ++ 44 :: (wsNext ++ u)), ?_, hws, ht.cons hws' hnextBlank helements⟩
      rw [← hu]
      simp

/-- **An array of documents** is the list of what each of them is alone. -/
theorem decodeText_array {texts : List Text} {values : List PyValue} (hne : texts ≠ [])
    (h : List.Forall₂ (fun text v => decodeText text = some v) texts values) :
    decodeText (91 :: (List.intercalate [44] texts ++ [93])) = some (.list values) := by
  obtain ⟨ws, u, hu, hws, helements⟩ := ElementsText.intercalate hne h
  refine decodeText_eq_some.mpr ⟨[], 91 :: (ws ++ u), [], ?_, by simp [Blank], helements.denotes hws,
    by simp [Blank]⟩
  rw [hu, List.nil_append, List.append_nil]

end Syswatch.Lib.PyJson
