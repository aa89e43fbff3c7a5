import Syswatch.Lib.PyJson

/-! # The limits of Python's reader of JSON texts

An interpreter reads no `int` of more than so many digits, and its stack has room for so
many brackets within each other. Such a text is no syntax error: another exception is
raised as soon as the reader comes to the number or the bracket. Within the limits the
reader is that of `PyJson` (`decodeText_eq_ok`). -/

namespace Syswatch.Lib.PyLimits
open Unicode PyJson

/-- How `json.loads` fails. -/
inductive LoadError where
  | unicodeDecodeError
  | jsonDecodeError
  | valueError
  | recursionError
  deriving DecidableEq

/-- `sys.get_int_max_str_digits()`, where 0 is no limit, and the room on the stack. -/
structure Limits where
  maxStrDigits : Nat
  depth : Nat
  threshold : maxStrDigits = 0 ∨ 640 ≤ maxStrDigits

/-! ## The reader -/

def found {α : Type} : Option α → Except LoadError α
  | some x => .ok x
  | none => .error .jsonDecodeError

/-- `int` of a literal without leading zeros that has no more than so many digits. -/
def Short (digits : Nat) (n : Nat) : Prop := digits = 0 ∨ n < 10 ^ digits

instance (digits n : Nat) : Decidable (Short digits n) := inferInstanceAs (Decidable (_ ∨ _))

def checked (digits : Nat) (r : PyValue × Text) : Except LoadError (PyValue × Text) :=
  match r.1 with
  | .int n => if Short digits n.natAbs then .ok r else .error .valueError
  | _ => .ok r

/-- A constant or a number. -/
def scalar (digits : Nat) (s : Text) : Except LoadError (PyValue × Text) :=
  match constant s with
  | some r => .ok r
  | none => (found (number s)).bind (checked digits)

mutual

/-- `scan_once` with room for `depth` more brackets. -/
def scan (digits : Nat) : Nat → Nat → Text → Except LoadError (PyValue × Text)
  | 0, _, _ => .error .jsonDecodeError
  | _ + 1, _, [] => .error .jsonDecodeError
  | fuel + 1, depth, c :: rest =>
    if c = 34 then (found (string fuel rest)).map fun r => (.str r.1, r.2)
    else if c = 123 then
      if depth = 0 then .error .recursionError
      else if (skipWs rest).head? = some 125 then .ok (.dict [], (skipWs rest).tail)
      else (scanMembers digits fuel (depth - 1) (skipWs rest)).map fun r => (.dict r.1, r.2)
    else if c = 91 then
      if depth = 0 then .error .recursionError
      else if (skipWs rest).head? = some 93 then .ok (.list [], (skipWs rest).tail)
      else (scanElements digits fuel (depth - 1) (skipWs rest)).map fun r => (.list r.1, r.2)
    else scalar digits (c :: rest)

def scanMembers (digits : Nat) : Nat → Nat → Text → Except LoadError (List (Text × PyValue) × Text)
  | 0, _, _ => .error .jsonDecodeError
  | fuel + 1, depth, s =>
    match s with
    | 34 :: rest =>
      (found (string fuel rest)).bind fun k =>
        match skipWs k.2 with
        | 58 :: rest =>
          (scan digits fuel depth (skipWs rest)).bind fun v =>
            match skipWs v.2 with
            | 44 :: rest =>
              (scanMembers digits fuel depth (skipWs rest)).map fun r => ((k.1, v.1) :: r.1, r.2)
            | 125 :: rest => .ok ([(k.1, v.1)], rest)
            | _ => .error .jsonDecodeError
        | _ => .error .jsonDecodeError
    | _ => .error .jsonDecodeError

def scanElements (digits : Nat) : Nat → Nat → Text → Except LoadError (List PyValue × Text)
  | 0, _, _ => .error .jsonDecodeError
  | fuel + 1, depth, s =>
    (scan digits fuel depth s).bind fun v =>
      match skipWs v.2 with
      | 44 :: rest => (scanElements digits fuel depth (skipWs rest)).map fun r => (v.1 :: r.1, r.2)
      | 93 :: rest => .ok ([v.1], rest)
      | _ => .error .jsonDecodeError

end

/-- `JSONDecoder.decode`. An open bracket takes one step to see it and one to enter it. -/
def Limits.decodeText (limits : Limits) (s : Text) : Except LoadError PyValue :=
  (scan limits.maxStrDigits (2 * s.length + 2) limits.depth (skipWs s)).bind fun r =>
    if skipWs r.2 = [] then .ok r.1 else .error .jsonDecodeError

/-- `json.loads` on bytes. -/
def Limits.loads (limits : Limits) (s : List UInt8) : Except LoadError PyValue :=
  match decode s (detectEncoding s) with
  | none => .error .unicodeDecodeError
  | some text => limits.decodeText text

/-- Brackets are entered before what is behind them is looked at. -/
example : Limits.decodeText ⟨0, 2, .inl rfl⟩ (chars "[[[") = .error .recursionError ∧
    Limits.decodeText ⟨0, 3, .inl rfl⟩ (chars "[[[") = .error .jsonDecodeError := ⟨rfl, rfl⟩

/-! ## Values within the limits -/

mutual

/-- No `int` is too long, and the brackets are at most so many within each other. -/
def Fits (digits : Nat) : PyValue → Nat → Prop
  | .int n, _ => Short digits n.natAbs
  | .list items, depth => depth ≠ 0 ∧ FitsItems digits items (depth - 1)
  | .dict members, depth => depth ≠ 0 ∧ FitsMembers digits members (depth - 1)
  | _, _ => True

def FitsItems (digits : Nat) : List PyValue → Nat → Prop
  | [], _ => True
  | v :: items, depth => Fits digits v depth ∧ FitsItems digits items depth

def FitsMembers (digits : Nat) : List (Text × PyValue) → Nat → Prop
  | [], _ => True
  | (_, v) :: members, depth => Fits digits v depth ∧ FitsMembers digits members depth

end

theorem fitsItems_iff {digits depth : Nat} {items : List PyValue} :
    FitsItems digits items depth ↔ ∀ v ∈ items, Fits digits v depth := by
  induction items with
  | nil => simp [FitsItems]
  | cons v items ih => rw [FitsItems, ih, List.forall_mem_cons]

theorem fitsMembers_iff {digits depth : Nat} {members : List (Text × PyValue)} :
    FitsMembers digits members depth ↔ ∀ m ∈ members, Fits digits m.2 depth := by
  induction members with
  | nil => simp [FitsMembers]
  | cons m members ih => rw [FitsMembers, ih, List.forall_mem_cons]

/-- The limits leave the value alone. -/
def Limits.Admits (limits : Limits) (v : PyValue) : Prop := Fits limits.maxStrDigits v limits.depth

/-! ## Within the limits, and beyond them -/

/-- What is read without limits is read if it fits; what is no syntax error with them
does not fit; and a syntax error is one without them. -/
def Agrees {α : Type} (fits : α → Prop) (without : Option (α × Text)) :
    Except LoadError (α × Text) → Prop
  | .ok r => without = some r ∧ fits r.1
  | .error .jsonDecodeError => without = none
  | .error _ => ∀ r, without = some r → ¬ fits r.1

theorem agrees_found {α : Type} (o : Option (α × Text)) : Agrees (fun _ => True) o (found o) := by
  cases o with
  | none => rfl
  | some r => exact ⟨rfl, trivial⟩

section Agrees
variable {α β : Type} {fits : α → Prop} {fits' : β → Prop} {o : Option (α × Text)}
  {e : Except LoadError (α × Text)}

theorem Agrees.map (h : Agrees fits o e) (f : α → β) (hf : ∀ x, fits' (f x) ↔ fits x) :
    Agrees fits' (o.map fun r => (f r.1, r.2)) (e.map fun r => (f r.1, r.2)) := by
  match e, h with
  | .ok r, ⟨ho, hfits⟩ => exact ⟨by rw [ho]; rfl, (hf r.1).mpr hfits⟩
  | .error .jsonDecodeError, ho => exact Option.map_eq_none_iff.mpr ho
  | .error .unicodeDecodeError, ho | .error .valueError, ho | .error .recursionError, ho =>
    intro r hr
    obtain ⟨x, hx, rfl⟩ := Option.map_eq_some_iff.mp hr
    exact fun hfits => ho x hx ((hf x.1).mp hfits)

theorem Agrees.bind (h : Agrees fits o e) {f : α × Text → Option (β × Text)}
    {f' : α × Text → Except LoadError (β × Text)} (hf : ∀ r, fits r.1 → Agrees fits' (f r) (f' r))
    (hsub : ∀ r x, f r = some x → fits' x.1 → fits r.1) : Agrees fits' (o.bind f) (e.bind f') := by
  match e, h with
  | .ok r, ⟨ho, hfits⟩ =>
    rw [ho]
    exact hf r hfits
  | .error .jsonDecodeError, ho => exact Option.bind_eq_none_iff.mpr fun r hr => by rw [ho] at hr; cases hr
  | .error .unicodeDecodeError, ho | .error .valueError, ho | .error .recursionError, ho =>
    intro x hx
    obtain ⟨r, hr, hx⟩ := Option.bind_eq_some_iff.mp hx
    exact fun hfits => ho r hr (hsub r x hx hfits)

/-! Both readers look for the same characters. -/

variable {f g : Text → Option (α × Text)} {f' g' : Text → Except LoadError (α × Text)} {s : Text}

theorem agrees_quote (hf : ∀ rest, Agrees fits (f rest) (f' rest)) :
    Agrees fits
      (match s with
        | 34 :: rest => f rest
        | _ => none)
      (match s with
        | 34 :: rest => f' rest
        | _ => .error .jsonDecodeError) := by
  split
  · exact hf _
  · rfl

theorem agrees_colon (hf : ∀ rest, Agrees fits (f rest) (f' rest)) :
    Agrees fits
      (match s with
        | 58 :: rest => f rest
        | _ => none)
      (match s with
        | 58 :: rest => f' rest
        | _ => .error .jsonDecodeError) := by
  split
  · exact hf _
  · rfl

theorem agrees_comma_brace (hf : ∀ rest, Agrees fits (f rest) (f' rest))
    (hg : ∀ rest, Agrees fits (g rest) (g' rest)) :
    Agrees fits
      (match s with
        | 44 :: rest => f rest
        | 125 :: rest => g rest
        | _ => none)
      (match s with
        | 44 :: rest => f' rest
        | 125 :: rest => g' rest
        | _ => .error .jsonDecodeError) := by
  split
  · exact hf _
  · exact hg _
  · rfl

theorem agrees_comma_bracket (hf : ∀ rest, Agrees fits (f rest) (f' rest))
    (hg : ∀ rest, Agrees fits (g rest) (g' rest)) :
    Agrees fits
      (match s with
        | 44 :: rest => f rest
        | 93 :: rest => g rest
        | _ => none)
      (match s with
        | 44 :: rest => f' rest
        | 93 :: rest => g' rest
        | _ => .error .jsonDecodeError) := by
  split
  · exact hf _
  · exact hg _
  · rfl

end Agrees

theorem scalar_agrees (digits depth : Nat) (s : Text) : Agrees (fun v => Fits digits v depth)
    (match constant s with
      | some r => some r
      | none => number s) (scalar digits s) := by
  unfold scalar
  cases hconstant : constant s with
  | some r =>
    refine ⟨rfl, ?_⟩
    obtain ⟨c, hc, heq⟩ := Option.map_eq_some_iff.mp hconstant
    have hmem := List.mem_of_find?_eq_some hc
    simp only [constants, List.mem_cons, List.mem_nil_iff, or_false] at hmem
    rw [← heq]
    rcases hmem with rfl | rfl | rfl | rfl | rfl | rfl <;> trivial
  | none =>
    cases hnumber : number s with
    | none => rfl
    | some r =>
      obtain ⟨v, rest⟩ := r
      change Agrees _ _ (checked digits (v, rest))
      have hscalar : (∃ n, v = .int n) ∨ ∃ literal, v = .float literal := by
        obtain ⟨whole, -, hv⟩ := Option.map_eq_some_iff.mp hnumber
        dsimp only at hv
        split at hv
        · exact .inl ⟨_, (Prod.ext_iff.mp hv).1.symm⟩
        · exact .inr ⟨_, (Prod.ext_iff.mp hv).1.symm⟩
      rcases hscalar with ⟨n, rfl⟩ | ⟨literal, rfl⟩
      · unfold checked
        dsimp only
        split_ifs with hshort
        · exact ⟨rfl, hshort⟩
        · intro r hr
          cases hr
          exact hshort
      · exact ⟨rfl, trivial⟩

/-- The three readers at some fuel. -/
structure AgreesAt (digits fuel : Nat) : Prop where
  value : ∀ depth s, Agrees (fun v => Fits digits v depth) (value fuel s) (scan digits fuel depth s)
  members : ∀ depth s,
    Agrees (fun ms => FitsMembers digits ms depth) (members fuel s) (scanMembers digits fuel depth s)
  elements : ∀ depth s,
    Agrees (fun vs => FitsItems digits vs depth) (elements fuel s) (scanElements digits fuel depth s)

/-- A bracket for which there is room, and one for which there is none. -/
theorem Agrees.bracket {α : Type} {fits : α → Nat → Prop} {build : α → PyValue} {nil : α}
    {digits depth : Nat} {without : Option (α × Text)} {within : Except LoadError (α × Text)}
    (hbuild : ∀ x, Fits digits (build x) depth ↔ depth ≠ 0 ∧ fits x (depth - 1))
    (hnil : fits nil (depth - 1)) (h : Agrees (fits · (depth - 1)) without within)
    (closed : Prop) [Decidable closed] (rest : Text) :
    Agrees (fun v => Fits digits v depth)
      (if closed then some (build nil, rest) else without.map fun r => (build r.1, r.2))
      (if depth = 0 then .error .recursionError
        else if closed then .ok (build nil, rest) else within.map fun r => (build r.1, r.2)) := by
  by_cases hdepth : depth = 0
  · rw [if_pos hdepth]
    have hfull : ∀ x, ¬ Fits digits (build x) depth := fun x hfits => ((hbuild x).mp hfits).1 hdepth
    intro r hr
    split_ifs at hr
    · cases hr
      exact hfull nil
    · obtain ⟨x, -, rfl⟩ := Option.map_eq_some_iff.mp hr
      exact hfull x.1
  · rw [if_neg hdepth]
    split_ifs
    · exact ⟨rfl, (hbuild nil).mpr ⟨hdepth, hnil⟩⟩
    · exact h.map build fun x => (hbuild x).trans (and_iff_right hdepth)

theorem AgreesAt.succ {digits fuel : Nat} (ih : AgreesAt digits fuel) : AgreesAt digits (fuel + 1) where
  value depth s := by
    cases s with
    | nil => rfl
    | cons c rest =>
      rw [PyJson.value, scan]
      by_cases h34 : c = 34
      · rw [if_pos h34, if_pos h34]
        exact (agrees_found _).map PyValue.str fun _ => Iff.rfl
      rw [if_neg h34, if_neg h34]
      by_cases h123 : c = 123
      · rw [if_pos h123, if_pos h123]
        exact .bracket (fun _ => Iff.rfl) trivial (ih.members _ _) _ _
      rw [if_neg h123, if_neg h123]
      by_cases h91 : c = 91
      · rw [if_pos h91, if_pos h91]
        exact .bracket (fun _ => Iff.rfl) trivial (ih.elements _ _) _ _
      rw [if_neg h91, if_neg h91]
      exact scalar_agrees digits depth (c :: rest)
  members depth s := by
    rw [PyJson.members.eq_def, scanMembers.eq_def]
    refine agrees_quote fun rest => ?_
    refine (agrees_found _).bind (fun k _ => ?_) fun _ _ _ _ => trivial
    refine agrees_colon fun rest => ?_
    refine (ih.value depth (skipWs rest)).bind (fun v hv => ?_) fun v ms hms hfits => ?_
    · refine agrees_comma_brace (fun rest => ?_) fun rest => ⟨rfl, hv, trivial⟩
      exact (ih.members depth _).map ((k.1, v.1) :: ·) fun _ => and_iff_right hv
    · split at hms
      · obtain ⟨_, -, rfl⟩ := Option.map_eq_some_iff.mp hms
        exact hfits.1
      · cases hms
        exact hfits.1
      · cases hms
  elements depth s := by
    rw [PyJson.elements, scanElements]
    refine (ih.value depth s).bind (fun v hv => ?_) fun v vs hvs hfits => ?_
    · refine agrees_comma_bracket (fun rest => ?_) fun rest => ⟨rfl, hv, trivial⟩
      exact (ih.elements depth _).map (v.1 :: ·) fun _ => and_iff_right hv
    · split at hvs
      · obtain ⟨_, -, rfl⟩ := Option.map_eq_some_iff.mp hvs
        exact hfits.1
      · cases hvs
        exact hfits.1
      · cases hvs

theorem agreesAt (digits fuel : Nat) : AgreesAt digits fuel := by
  induction fuel with
  | zero => constructor <;> intro _ _ <;> rfl
  | succ fuel ih => exact ih.succ

/-! ## Enough fuel -/

theorem skipWs_length (s : Text) : (skipWs s).length ≤ s.length := List.length_dropWhile_le ..

theorem hex4_length {s r : Text} {n : Nat} (h : hex4 s = some (n, r)) : r.length < s.length := by
  unfold hex4 at h
  split at h
  · simp only [bind, Option.bind_eq_some_iff] at h
    obtain ⟨_, -, _, -, _, -, _, -, heq⟩ := h
    cases heq
    simp only [List.length_cons]
    omega
  · cases h

theorem lowSurrogate_length {s r : Text} {n : Nat} (h : lowSurrogate s = some (n, r)) :
    r.length < s.length := by
  unfold lowSurrogate at h
  split at h
  · have := hex4_length (Option.filter_eq_some_iff.mp h).1
    simp only [List.length_cons]
    omega
  · cases h

theorem unicodeEscape_length {s r : Text} {n : Nat} (h : unicodeEscape s = some (n, r)) :
    r.length < s.length := by
  obtain ⟨⟨high, r'⟩, hhigh, heq⟩ := Option.map_eq_some_iff.mp h
  have hfirst := hex4_length hhigh
  dsimp only at heq
  split at heq
  · next low hlow =>
    split_ifs at hlow
    have hsecond := lowSurrogate_length hlow
    obtain ⟨-, rfl⟩ := Prod.ext_iff.mp heq
    exact hsecond.trans hfirst
  · obtain ⟨-, rfl⟩ := Prod.ext_iff.mp heq
    exact hfirst

theorem escape_length {s r : Text} {n : Nat} (h : escape s = some (n, r)) : r.length < s.length := by
  cases s with
  | nil => cases h
  | cons c s =>
    rw [escape] at h
    split at h
    · cases h
      exact Nat.lt_succ_self _
    · split_ifs at h
      exact (unicodeEscape_length h).trans (Nat.lt_succ_self _)

theorem string_stable {fuel : Nat} : ∀ {s : Text}, s.length < fuel → string (fuel + 1) s = string fuel s := by
  induction fuel with
  | zero => intro s hs; cases hs
  | succ fuel ih =>
    intro s hs
    cases s with
    | nil => rfl
    | cons c rest =>
      have hrest : rest.length < fuel := Nat.lt_of_succ_lt_succ hs
      have hescape : ((escape rest).bind fun e => (string (fuel + 1) e.2).map fun r => (e.1 :: r.1, r.2)) =
          (escape rest).bind fun e => (string fuel e.2).map fun r => (e.1 :: r.1, r.2) := by
        cases he : escape rest with
        | none => rfl
        | some e => rw [Option.bind_some, Option.bind_some, ih ((escape_length he).trans hrest)]
      rw [string, hescape, ih hrest]
      rfl

theorem string_length {fuel : Nat} {s : Text} {k : Text × Text} (h : found (string fuel s) = .ok k) :
    k.2.length < s.length := by
  cases hstring : string fuel s with
  | none => rw [hstring] at h; cases h
  | some r =>
    rw [hstring] at h
    cases h
    obtain ⟨x, rfl, -⟩ := string_takes hstring
    simp only [List.length_append, List.length_cons]
    omega

/-- A value takes up a character at least. -/
theorem scan_length {digits fuel depth : Nat} {s : Text} {v : PyValue × Text}
    (h : scan digits fuel depth s = .ok v) : v.2.length < s.length := by
  have hagrees := (agreesAt digits fuel).value depth s
  rw [h] at hagrees
  obtain ⟨t, rfl, ht⟩ := (takesAt fuel).value hagrees.1
  obtain ⟨c, t, rfl, -⟩ := ht.starts
  simp

theorem bind_congr {ε α β : Type} {e : Except ε α} {f g : α → Except ε β}
    (h : ∀ x, e = .ok x → f x = g x) : e.bind f = e.bind g := by
  cases e with
  | error e => rfl
  | ok x => exact h x rfl

/-- More fuel changes nothing. -/
structure StableAt (digits fuel : Nat) : Prop where
  value : ∀ depth s, 2 * s.length < fuel → scan digits (fuel + 1) depth s = scan digits fuel depth s
  members : ∀ depth s, 2 * s.length + 1 < fuel →
    scanMembers digits (fuel + 1) depth s = scanMembers digits fuel depth s
  elements : ∀ depth s, 2 * s.length + 1 < fuel →
    scanElements digits (fuel + 1) depth s = scanElements digits fuel depth s

theorem StableAt.succ {digits fuel : Nat} (ih : StableAt digits fuel) : StableAt digits (fuel + 1) where
  value depth s hs := by
    cases s with
    | nil => rfl
    | cons c rest =>
      have hskip := skipWs_length rest
      rw [List.length_cons] at hs
      simp only [scan, string_stable (show rest.length < fuel by omega),
        ih.members (depth - 1) (skipWs rest) (by omega), ih.elements (depth - 1) (skipWs rest) (by omega)]
  members depth s hs := by
    rw [scanMembers.eq_def, scanMembers.eq_def digits (fuel + 1)]
    dsimp only
    split
    · next rest =>
      rw [List.length_cons] at hs
      rw [string_stable (show rest.length < fuel by omega)]
      refine bind_congr fun k hkey => ?_
      have hlength := string_length hkey
      have hskip := skipWs_length k.2
      split
      · next rest hcolon =>
        rw [hcolon, List.length_cons] at hskip
        have hskip' := skipWs_length rest
        rw [ih.value depth (skipWs rest) (by omega)]
        refine bind_congr fun v hv => ?_
        have hvLength := scan_length hv
        have hvSkip := skipWs_length v.2
        split
        · next rest hcomma =>
          rw [hcomma, List.length_cons] at hvSkip
          have hskip'' := skipWs_length rest
          rw [ih.members depth (skipWs rest) (by omega)]
        · rfl
        · rfl
      · rfl
    · rfl
  elements depth s hs := by
    rw [scanElements, scanElements, ih.value depth s (by omega)]
    refine bind_congr fun v hv => ?_
    have hlength := scan_length hv
    have hskip := skipWs_length v.2
    split
    · next rest hcomma =>
      rw [hcomma, List.length_cons] at hskip
      have hskip' := skipWs_length rest
      rw [ih.elements depth (skipWs rest) (by omega)]
    · rfl
    · rfl

theorem stableAt (digits fuel : Nat) : StableAt digits fuel := by
  induction fuel with
  | zero => constructor <;> intro _ _ hs <;> cases hs
  | succ fuel ih => exact ih.succ

/-- **`decodeText` has enough fuel.** -/
theorem scan_enough (digits depth : Nat) (s : Text) (fuel : Nat) :
    scan digits (2 * s.length + 2 + fuel) depth (skipWs s) =
      scan digits (2 * s.length + 2) depth (skipWs s) := by
  induction fuel with
  | zero => rfl
  | succ fuel ih =>
    have hskip := skipWs_length s
    rw [← ih, ← Nat.add_assoc]
    exact (stableAt digits _).value depth (skipWs s) (by omega)

/-! ## Reading within the limits -/

/-- The fuel of `Limits.decodeText` is enough for the reader without limits, too. -/
theorem decodeText_iff_value {s : Text} {v : PyValue} : PyJson.decodeText s = some v ↔
    ∃ r, value (2 * s.length + 2) (skipWs s) = some (v, r) ∧ skipWs r = [] := by
  constructor
  · intro h
    obtain ⟨ws, t, ws', rfl, hws, ht, hws'⟩ := decodeText_eq_some.mp h
    refine ⟨ws', ?_, skipWs_eq_nil.mpr hws'⟩
    rw [skipWs_blank hws (ht.starts.head ws')]
    exact ht.reads _ ws' (by simp only [List.length_append]; omega) hws'.stops
  · rintro ⟨r, hread, hr⟩
    exact decodeText_iff.mpr ⟨_, r, hread, skipWs_eq_nil.mp hr⟩

/-- **Within the limits** a text is read as it is without them. -/
theorem Limits.decodeText_eq_ok {limits : Limits} {s : Text} {v : PyValue} :
    limits.decodeText s = .ok v ↔ PyJson.decodeText s = some v ∧ limits.Admits v := by
  have hagrees := (agreesAt limits.maxStrDigits (2 * s.length + 2)).value limits.depth (skipWs s)
  rw [decodeText_iff_value]
  unfold Limits.decodeText
  cases hscan : scan limits.maxStrDigits (2 * s.length + 2) limits.depth (skipWs s) with
  | ok r =>
    rw [hscan] at hagrees
    obtain ⟨hread, hfits⟩ := hagrees
    change (if skipWs r.2 = [] then Except.ok r.1 else _) = _ ↔ _
    constructor
    · intro h
      split_ifs at h with hblank
      cases h
      exact ⟨⟨r.2, hread, hblank⟩, hfits⟩
    · intro ⟨⟨rest, hvalue, hblank⟩, _⟩
      rw [hread] at hvalue
      cases hvalue
      exact if_pos hblank
  | error e =>
    rw [hscan] at hagrees
    refine iff_of_false (fun h => by cases h) fun h => ?_
    obtain ⟨⟨rest, hvalue, -⟩, hfits⟩ := h
    cases e with
    | jsonDecodeError => cases hagrees.symm.trans hvalue
    | unicodeDecodeError | valueError | recursionError => exact hagrees _ hvalue hfits

/-- A syntax error within the limits is one without them. -/
theorem Limits.decodeText_syntax {limits : Limits} {s : Text}
    (h : limits.decodeText s = .error .jsonDecodeError) : PyJson.decodeText s = none := by
  refine Option.eq_none_iff_forall_ne_some.mpr fun v hv => ?_
  obtain ⟨rest, hvalue, hblank⟩ := decodeText_iff_value.mp hv
  have hagrees := (agreesAt limits.maxStrDigits (2 * s.length + 2)).value limits.depth (skipWs s)
  unfold Limits.decodeText at h
  cases hscan : scan limits.maxStrDigits (2 * s.length + 2) limits.depth (skipWs s) with
  | ok r =>
    rw [hscan] at hagrees h
    cases hagrees.1.symm.trans hvalue
    change (if skipWs rest = [] then Except.ok v else _) = _ at h
    rw [if_pos hblank] at h
    cases h
  | error e =>
    rw [hscan] at hagrees h
    cases h
    cases hagrees.symm.trans hvalue

/-- `json.loads` within the limits. -/
theorem Limits.loads_eq_ok {limits : Limits} {s : List UInt8} {v : PyValue} :
    limits.loads s = .ok v ↔ PyJson.loads s = .value v ∧ limits.Admits v := by
  unfold Limits.loads PyJson.loads
  cases decode s (detectEncoding s) with
  | none => exact iff_of_false (fun h => by cases h) fun h => by cases h.1
  | some text =>
    dsimp only
    rw [Limits.decodeText_eq_ok]
    cases PyJson.decodeText text with
    | none => exact iff_of_false (fun h => by cases h.1) fun h => by cases h.1
    | some w => simp only [Option.some.injEq, Loaded.value.injEq]

/-- Beyond the limits another exception is raised. -/
theorem Limits.loads_beyond {limits : Limits} {s : List UInt8} {v : PyValue}
    (h : PyJson.loads s = .value v) (hv : ¬limits.Admits v) :
    ∃ e, limits.loads s = .error e ∧ e ≠ .jsonDecodeError := by
  cases hloads : limits.loads s with
  | ok w =>
    obtain ⟨hread, hadmits⟩ := Limits.loads_eq_ok.mp hloads
    cases h.symm.trans hread
    exact absurd hadmits hv
  | error e =>
    refine ⟨e, rfl, fun he => ?_⟩
    unfold Limits.loads at hloads
    unfold PyJson.loads at h
    cases hdecode : decode s (detectEncoding s) with
    | none => rw [hdecode] at h; cases h
    | some text =>
      rw [hdecode] at h hloads
      simp only [Limits.decodeText_syntax (he ▸ hloads)] at h
      cases h

mutual

/-- What fits into less fits. -/
theorem Fits.mono {digits digits' : Nat} (hshort : ∀ n, Short digits n → Short digits' n) {v : PyValue}
    {depth depth' : Nat} (hdepth : depth ≤ depth') (h : Fits digits v depth) : Fits digits' v depth' := by
  match v, h with
  | .none, _ | .bool _, _ | .float _, _ | .str _, _ => trivial
  | .int n, h => exact hshort _ h
  | .list items, ⟨hroom, h⟩ => exact ⟨by omega, FitsItems.mono hshort (by omega) h⟩
  | .dict members, ⟨hroom, h⟩ => exact ⟨by omega, FitsMembers.mono hshort (by omega) h⟩

theorem FitsItems.mono {digits digits' : Nat} (hshort : ∀ n, Short digits n → Short digits' n)
    {items : List PyValue} {depth depth' : Nat} (hdepth : depth ≤ depth')
    (h : FitsItems digits items depth) : FitsItems digits' items depth' := by
  match items, h with
  | [], _ => trivial
  | v :: items, ⟨hv, h⟩ => exact ⟨hv.mono hshort hdepth, FitsItems.mono hshort hdepth h⟩

theorem FitsMembers.mono {digits digits' : Nat} (hshort : ∀ n, Short digits n → Short digits' n)
    {members : List (Text × PyValue)} {depth depth' : Nat} (hdepth : depth ≤ depth')
    (h : FitsMembers digits members depth) : FitsMembers digits' members depth' := by
  match members, h with
  | [], _ => trivial
  | (_, v) :: members, ⟨hv, h⟩ => exact ⟨hv.mono hshort hdepth, FitsMembers.mono hshort hdepth h⟩

end

theorem short_of_lt {digits k n : Nat} (h : n < 10 ^ k) (hk : k ≤ digits) : Short digits n :=
  .inr (h.trans_le (Nat.pow_le_pow_right (by decide) hk))

theorem Short.mono {digits digits' n : Nat} (h : Short digits n) (hdigits : digits ≠ 0)
    (hmore : digits' = 0 ∨ digits ≤ digits') : Short digits' n :=
  hmore.elim .inl (short_of_lt (h.resolve_left hdigits))

/-- No interpreter has a limit of fewer than 640 digits. -/
theorem Limits.short (limits : Limits) (n : Nat) (h : Short 640 n) : Short limits.maxStrDigits n :=
  h.mono (Nat.succ_ne_zero _) limits.threshold

theorem Fits.admits {limits : Limits} {v : PyValue} {depth : Nat} (h : Fits 640 v depth)
    (hdepth : depth ≤ limits.depth) : limits.Admits v :=
  h.mono limits.short hdepth

end Syswatch.Lib.PyLimits
