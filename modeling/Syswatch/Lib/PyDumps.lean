import Syswatch.Lib.PyFloat

/-! # `json.dumps`

With the separators `,` and `:` and the default arguments: nothing but ASCII is
written, and a `float` that is no number is written by its name. An object is a
decoded value in its canonical spelling: a `dict` has each key once, and a
`float` is spelled as `float.__repr__` does. -/

namespace Syswatch.Lib.PyDumps
open Unicode PyJson PyFloat Binary64
open JsonText (utf8)

/-! ## Objects -/

/-- `d[key] = x`: a key that is there keeps its place. -/
def setItem {α : Type} (items : List (Text × α)) (item : Text × α) : List (Text × α) :=
  if item.1 ∈ items.map Prod.fst then items.map fun i => if i.1 = item.1 then item else i
  else items ++ [item]

/-- The items of the `dict` that is filled with these. -/
def dictItems {α : Type} (items : List (Text × α)) : List (Text × α) := items.foldl setItem []

mutual

/-- The object that a value is decoded to. -/
def canonical : PyValue → PyValue
  | .none => .none
  | .bool b => .bool b
  | .int n => .int n
  | .float literal => .float (floatText (readFloat literal))
  | .str s => .str s
  | .list items => .list (canonicalItems items)
  | .dict members => .dict (dictItems (canonicalMembers members))

def canonicalItems : List PyValue → List PyValue
  | [] => []
  | v :: items => canonical v :: canonicalItems items

def canonicalMembers : List (Text × PyValue) → List (Text × PyValue)
  | [] => []
  | (key, v) :: members => (key, canonical v) :: canonicalMembers members

end

mutual

/-- Each `float` and each text of a value is of that kind. -/
def Every (onFloat onText : Text → Prop) : PyValue → Prop
  | .none => True
  | .bool _ => True
  | .int _ => True
  | .float literal => onFloat literal
  | .str s => onText s
  | .list items => EveryItem onFloat onText items
  | .dict members => EveryMember onFloat onText members

def EveryItem (onFloat onText : Text → Prop) : List PyValue → Prop
  | [] => True
  | v :: items => Every onFloat onText v ∧ EveryItem onFloat onText items

def EveryMember (onFloat onText : Text → Prop) : List (Text × PyValue) → Prop
  | [] => True
  | (key, v) :: members => (onText key ∧ Every onFloat onText v) ∧ EveryMember onFloat onText members

end

/-! ## The writer -/

def hexDigit (n : Nat) : Nat := if n < 10 then 48 + n else 87 + n

/-- `\u` and four hexadecimal digits. -/
def unicodeText (n : Nat) : Text :=
  [92, 117, hexDigit (n / 4096 % 16), hexDigit (n / 256 % 16), hexDigit (n / 16 % 16), hexDigit (n % 16)]

/-- The letter behind the backslash, for the characters that have one. -/
def escapeLetter (n : Nat) : Option Nat :=
  if n = 34 then some 34
  else if n = 92 then some 92
  else if n = 8 then some 98
  else if n = 12 then some 102
  else if n = 10 then some 110
  else if n = 13 then some 114
  else if n = 9 then some 116
  else none

/-- `py_encode_basestring_ascii` of one character. -/
def escapedChar (n : Nat) : Text :=
  match escapeLetter n with
  | some letter => [92, letter]
  | none =>
    if 32 ≤ n ∧ n ≤ 126 then [n]
    else if n < 0x10000 then unicodeText n
    else unicodeText (0xD800 + (n - 0x10000) / 1024) ++ unicodeText (0xDC00 + (n - 0x10000) % 1024)

def escaped (s : Text) : Text := s.flatMap escapedChar

mutual

/-- The text of an object. -/
def objectText : PyValue → Text
  | .none => chars "null"
  | .bool b => if b then chars "true" else chars "false"
  | .int n => intText n
  | .float literal => floatText (readFloat literal)
  | .str s => 34 :: (escaped s ++ [34])
  | .list [] => [91, 93]
  | .list (v :: items) => 91 :: (objectText v ++ itemsText items)
  | .dict [] => [123, 125]
  | .dict ((key, v) :: members) => 123 :: (itemText (escaped key) [] [] (objectText v) ++ memberTexts members)

/-- The items behind the first of a `list`, and its end. -/
def itemsText : List PyValue → Text
  | [] => [93]
  | v :: items => 44 :: (objectText v ++ itemsText items)

/-- The items behind the first of a `dict`, and its end. -/
def memberTexts : List (Text × PyValue) → Text
  | [] => [125]
  | (key, v) :: members => 44 :: (itemText (escaped key) [] [] (objectText v) ++ memberTexts members)

end

/-- `json.dumps(v, separators=(",", ":"))`. -/
def dumps (v : PyValue) : Text := objectText (canonical v)

example : dumps (.list [.dict [(chars "a", .int 1), (chars "b", .none), (chars "a", .float (chars "2.50"))],
    .str [9, 0x1F600]]) = chars "[\x7b\"a\":2.5,\"b\":null\x7d,\"\\t\\ud83d\\ude00\"]" := by
  decide +kernel

/-! ## Strings -/

def IsHigh (n : Nat) : Prop := 0xD800 ≤ n ∧ n < 0xDC00

def IsLow (n : Nat) : Prop := 0xDC00 ≤ n ∧ n < 0xE000

instance (n : Nat) : Decidable (IsLow n) := inferInstanceAs (Decidable (_ ∧ _))

/-- No surrogate is followed by one that completes it. -/
def Unpaired (s : Text) : Prop := s.IsChain fun a b => ¬(IsHigh a ∧ IsLow b)

theorem hexVal_hexDigit : ∀ n : Fin 16, hexVal (hexDigit n) = some n.val := by
  decide

theorem hex4_hexDigits {n : Nat} (h : n < 0x10000) (rest : Text) :
    hex4 (hexDigit (n / 4096 % 16) :: hexDigit (n / 256 % 16) :: hexDigit (n / 16 % 16) ::
      hexDigit (n % 16) :: rest) = some (n, rest) := by
  have hdigit (k : Nat) : hexVal (hexDigit (k % 16)) = some (k % 16) :=
    hexVal_hexDigit ⟨k % 16, Nat.mod_lt k (by decide)⟩
  have hvalue : 4096 * (n / 4096 % 16) + 256 * (n / 256 % 16) + 16 * (n / 16 % 16) + n % 16 = n := by
    omega
  simp [hex4, hdigit, hvalue]

theorem lowSurrogate_unicodeText {n : Nat} (h : n < 0x10000) (rest : Text) :
    lowSurrogate (unicodeText n ++ rest) = if IsLow n then some (n, rest) else none := by
  have hread := hex4_hexDigits h rest
  simp only [unicodeText, List.cons_append, List.nil_append, lowSurrogate, hread]
  by_cases hlow : IsLow n
  · rw [if_pos hlow, Option.filter_eq_some_iff]
    exact ⟨rfl, by simpa [IsLow] using hlow⟩
  · rw [if_neg hlow, Option.filter_eq_none_iff]
    rintro r hr hlow'
    cases hr
    exact hlow (by simpa [IsLow] using hlow')

/-- The escape of a code unit, where no second half of a pair follows one half. -/
theorem escape_unit {n : Nat} (h : n < 0x10000) {rest : Text}
    (hrest : IsHigh n → lowSurrogate rest = none) :
    escape ((unicodeText n).tail ++ rest) = some (n, rest) := by
  have hread := hex4_hexDigits h rest
  simp only [unicodeText, List.tail_cons, List.cons_append, List.nil_append, escape]
  rw [show simpleEscape 117 = none from rfl]
  simp only [if_true, unicodeEscape, hread, Option.map_some]
  by_cases hhigh : 0xD800 ≤ n ∧ n < 0xDC00
  · rw [if_pos hhigh, hrest hhigh]
  · rw [if_neg hhigh]

/-- The escapes of both halves of a pair. -/
theorem escape_pair {n : Nat} (h : 0x10000 ≤ n) (hn : n < 0x110000) (rest : Text) :
    escape ((unicodeText (0xD800 + (n - 0x10000) / 1024)).tail ++
      (unicodeText (0xDC00 + (n - 0x10000) % 1024) ++ rest)) = some (n, rest) := by
  have hhigh : 0xD800 + (n - 0x10000) / 1024 < 0x10000 := by omega
  have hlow : 0xDC00 + (n - 0x10000) % 1024 < 0x10000 := by omega
  have hread := hex4_hexDigits hhigh (unicodeText (0xDC00 + (n - 0x10000) % 1024) ++ rest)
  have hpair := lowSurrogate_unicodeText hlow rest
  rw [if_pos (by unfold IsLow; omega)] at hpair
  rw [unicodeText, List.tail_cons, List.cons_append, escape, show simpleEscape 117 = none from rfl]
  simp only [if_true, unicodeEscape, List.cons_append, List.nil_append, hread, Option.map_some]
  rw [if_pos (by omega), hpair]
  simp only [Option.some.injEq, Prod.mk.injEq, and_true]
  omega

theorem stringText_nil : StringText [] [] := by
  intro fuel rest hfuel
  obtain ⟨k, rfl⟩ := Nat.exists_eq_succ_of_ne_zero (Nat.ne_of_gt hfuel)
  rfl

theorem stringText_plain {c : Nat} {x d : Text} (hc : 32 ≤ c ∧ c ≠ 34 ∧ c ≠ 92)
    (hx : StringText x d) : StringText (c :: x) (c :: d) := by
  intro fuel rest hfuel
  obtain ⟨k, rfl⟩ := Nat.exists_eq_succ_of_ne_zero (Nat.ne_of_gt (Nat.zero_lt_of_lt hfuel))
  rw [List.length_cons] at hfuel
  simp only [List.cons_append, string, if_neg hc.2.1, if_neg hc.2.2, if_neg (Nat.not_lt.mpr hc.1),
    hx k rest (by omega), Option.map_some]

theorem stringText_of_plain {x : Text} (hx : ∀ c ∈ x, 32 ≤ c ∧ c ≠ 34 ∧ c ≠ 92) : StringText x x := by
  induction x with
  | nil =>
    intro fuel rest hfuel
    obtain ⟨k, rfl⟩ := Nat.exists_eq_succ_of_ne_zero (Nat.ne_of_gt hfuel)
    rfl
  | cons c x ih =>
    exact stringText_plain (hx c List.mem_cons_self) (ih fun d hd => hx d (List.mem_cons_of_mem c hd))

theorem stringText_escape {p x d : Text} {n : Nat}
    (hread : ∀ rest, escape (p ++ (x ++ 34 :: rest)) = some (n, x ++ 34 :: rest)) (hx : StringText x d) :
    StringText (92 :: (p ++ x)) (n :: d) := by
  intro fuel rest hfuel
  obtain ⟨k, rfl⟩ := Nat.exists_eq_succ_of_ne_zero (Nat.ne_of_gt (Nat.zero_lt_of_lt hfuel))
  rw [List.length_cons, List.length_append] at hfuel
  simp only [List.cons_append, List.append_assoc, string, if_neg (show (92 : Nat) ≠ 34 by decide),
    if_true, hread, Option.bind_some, hx k rest (by omega), Option.map_some]

/-- A letter stands for its character. -/
theorem escapeLetter_some {n letter : Nat} (h : escapeLetter n = some letter) :
    simpleEscape letter = some n ∧ 32 ≤ letter ∧ letter < 0x80 ∧ letter ≠ 117 := by
  unfold escapeLetter at h
  split_ifs at h <;> cases h <;> subst n <;> decide

theorem escapeLetter_none {n : Nat} (h : escapeLetter n = none) : n ≠ 34 ∧ n ≠ 92 := by
  constructor <;> rintro rfl <;> cases h

/-- What a character is escaped to does not complete a pair, unless it does itself. -/
theorem lowSurrogate_escaped {s : Text} (h : ∀ c ∈ s.head?, c < 0x110000 ∧ ¬IsLow c) (rest : Text) :
    lowSurrogate (escaped s ++ 34 :: rest) = none := by
  cases s with
  | nil => rfl
  | cons n s =>
    obtain ⟨hbound, hn⟩ := h n rfl
    rw [escaped, List.flatMap_cons, List.append_assoc, escapedChar]
    cases hletter : escapeLetter n with
    | some letter =>
      have h117 := (escapeLetter_some hletter).2.2.2
      simp only [List.cons_append, List.nil_append]
      rw [lowSurrogate]
      rintro t ht
      exact h117 (List.cons.inj (List.cons.inj ht).2).1
    | none =>
      dsimp only
      split_ifs with hplain hunit
      · rw [List.singleton_append, lowSurrogate]
        rintro t ht
        exact (escapeLetter_none hletter).2 (List.cons.inj ht).1
      · rw [lowSurrogate_unicodeText hunit, if_neg hn]
      · have hfirst : ¬IsLow (0xD800 + (n - 0x10000) / 1024) := by
          unfold IsLow
          omega
        rw [List.append_assoc, lowSurrogate_unicodeText (by omega), if_neg hfirst]

theorem stringText_escapedChar {n : Nat} (hn : n < 0x110000) {x d : Text} (hx : StringText x d)
    (hnext : IsHigh n → ∀ rest, lowSurrogate (x ++ 34 :: rest) = none) :
    StringText (escapedChar n ++ x) (n :: d) := by
  rw [escapedChar]
  cases hletter : escapeLetter n with
  | some letter =>
    have hsimple := (escapeLetter_some hletter).1
    exact stringText_escape (p := [letter]) (fun rest => by rw [List.singleton_append, escape, hsimple]) hx
  | none =>
    dsimp only
    split_ifs with hplain hunit
    · exact stringText_plain ⟨hplain.1, escapeLetter_none hletter⟩ hx
    · exact stringText_escape (fun rest => escape_unit hunit fun hhigh => hnext hhigh rest) hx
    · have hread (rest : Text) := escape_pair (Nat.le_of_not_lt hunit) hn (x ++ 34 :: rest)
      rw [List.append_assoc]
      refine stringText_escape (p := (unicodeText (0xD800 + (n - 0x10000) / 1024)).tail ++
        unicodeText (0xDC00 + (n - 0x10000) % 1024)) (fun rest => ?_) hx
      rw [List.append_assoc]
      exact hread rest

/-- **An escaped text is read back**, unless two characters of it are a pair. -/
theorem stringText_escaped {s : Text} (henc : Encodable s) (hs : Unpaired s) :
    StringText (escaped s) s := by
  induction s with
  | nil => exact stringText_nil
  | cons n s ih =>
    have henc' : Encodable s := fun m hm => henc m (List.mem_cons_of_mem n hm)
    have hs' : Unpaired s := hs.tail
    -- whether a high half is completed is settled by what is written next
    refine stringText_escapedChar (henc n List.mem_cons_self) (ih henc' hs') fun hhigh rest => ?_
    refine lowSurrogate_escaped (fun c hc => ?_) rest
    obtain ⟨s, rfl⟩ := List.head?_eq_some_iff.mp hc
    exact ⟨henc' c List.mem_cons_self, fun hlow => hs.rel ⟨hhigh, hlow⟩⟩

/-! ## What is written is read back -/

/-- Induction over a value: what holds of all its items holds of it. -/
@[elab_as_elim]
theorem value_induction {motive : PyValue → Prop} (none : motive .none) (bool : ∀ b, motive (.bool b))
    (int : ∀ n, motive (.int n)) (float : ∀ literal, motive (.float literal))
    (str : ∀ s, motive (.str s)) (list : ∀ items, (∀ v ∈ items, motive v) → motive (.list items))
    (dict : ∀ members, (∀ m ∈ members, motive m.2) → motive (.dict members)) (v : PyValue) :
    motive v :=
  @PyValue.rec motive (fun items => ∀ v ∈ items, motive v) (fun members => ∀ m ∈ members, motive m.2)
    (fun m => motive m.2) none bool int float str list dict (List.forall_mem_nil _)
    (fun _ _ hv hitems => List.forall_mem_cons.mpr ⟨hv, hitems⟩) (List.forall_mem_nil _)
    (fun _ _ hm hmembers => List.forall_mem_cons.mpr ⟨hm, hmembers⟩) (fun _ _ h => h) v

theorem canonicalItems_eq (items : List PyValue) : canonicalItems items = items.map canonical := by
  induction items with
  | nil => rfl
  | cons v items ih => rw [canonicalItems, ih, List.map_cons]

theorem canonicalMembers_eq (members : List (Text × PyValue)) :
    canonicalMembers members = members.map fun m => (m.1, canonical m.2) := by
  induction members with
  | nil => rfl
  | cons m members ih => rw [canonicalMembers, ih, List.map_cons]

section
variable {onFloat onText : Text → Prop}

theorem everyItem_iff {items : List PyValue} :
    EveryItem onFloat onText items ↔ ∀ v ∈ items, Every onFloat onText v := by
  induction items with
  | nil => simp [EveryItem]
  | cons v items ih => rw [EveryItem, ih, List.forall_mem_cons]

theorem everyMember_iff {members : List (Text × PyValue)} :
    EveryMember onFloat onText members ↔ ∀ m ∈ members, onText m.1 ∧ Every onFloat onText m.2 := by
  induction members with
  | nil => simp [EveryMember]
  | cons m members ih => rw [EveryMember, ih, List.forall_mem_cons]

end

theorem elementsText_items {v : PyValue} {items : List PyValue}
    (h : ∀ w ∈ v :: items, Denotes (objectText w) w) :
    ElementsText (objectText v ++ itemsText items) (v :: items) := by
  have hblank : Blank [] := by simp [Blank]
  induction items generalizing v with
  | nil => exact (h v List.mem_cons_self).last hblank
  | cons w items ih =>
    -- no white space is written on either side of the comma
    have hcons := (h v List.mem_cons_self).cons hblank hblank
      (ih fun u hu => h u (List.mem_cons_of_mem v hu))
    exact hcons

theorem membersText_members {key : Text} {v : PyValue} {members : List (Text × PyValue)}
    (h : ∀ m ∈ (key, v) :: members, StringText (escaped m.1) m.1 ∧ Denotes (objectText m.2) m.2) :
    MembersText (itemText (escaped key) [] [] (objectText v) ++ memberTexts members)
      ((key, v) :: members) := by
  have hblank : Blank [] := by simp [Blank]
  induction members generalizing key v with
  | nil =>
    obtain ⟨hkey, hv⟩ := h _ List.mem_cons_self
    exact .last hkey hblank hblank hv hblank
  | cons m members ih =>
    obtain ⟨hkey, hv⟩ := h _ List.mem_cons_self
    have hcons := MembersText.cons hkey hblank hblank hv hblank hblank
      (ih fun u hu => h u (List.mem_cons_of_mem _ hu))
    exact hcons

/-- The text of a `float`. -/
def Spelled (literal : Text) : Prop := ∃ x : Double, x.Proper ∧ literal = floatText x

/-- A text of characters that are, of which no two are a pair. -/
def Whole (s : Text) : Prop := Encodable s ∧ Unpaired s

/-- **The text of an object is read as the object.** -/
theorem denotes_objectText {v : PyValue} (h : Every Spelled Whole v) : Denotes (objectText v) v := by
  have hblank : Blank [] := by simp [Blank]
  induction v using value_induction with
  | none => exact denotes_whole (.inl rfl)
  | bool b => cases b <;> exact denotes_whole (.inl rfl)
  | int n => exact denotes_intText n
  | float literal =>
    obtain ⟨x, hx, rfl⟩ := h
    obtain ⟨hdenotes, hback⟩ := denotes_floatText hx
    rw [objectText, hback]
    exact hdenotes
  | str s => exact (stringText_escaped h.1 h.2).denotes
  | list items ih =>
    rw [Every, everyItem_iff] at h
    cases items with
    | nil => exact (denotes_empty hblank).2
    | cons v items =>
      have helements := elementsText_items fun w hw => ih w hw (h w hw)
      have hlist := helements.denotes hblank
      exact hlist
  | dict members ih =>
    rw [Every, everyMember_iff] at h
    cases members with
    | nil => exact (denotes_empty hblank).1
    | cons m members =>
      have hmembers := membersText_members (v := m.2) fun u hu => by
        obtain ⟨hkey, hv⟩ := h u hu
        exact ⟨stringText_escaped hkey.1 hkey.2, ih u hu hv⟩
      have hdict := hmembers.denotes hblank
      exact hdict

/-! ## The canonical spelling -/

theorem mem_setItem {α : Type} {items : List (Text × α)} {item m : Text × α}
    (h : m ∈ setItem items item) : m ∈ items ∨ m = item := by
  unfold setItem at h
  split_ifs at h
  · obtain ⟨i, hi, rfl⟩ := List.mem_map.mp h
    split_ifs
    · exact .inr rfl
    · exact .inl hi
  · exact (List.mem_append.mp h).imp_right List.mem_singleton.mp

theorem mem_dictItems {α : Type} {items : List (Text × α)} {m : Text × α} (h : m ∈ dictItems items) :
    m ∈ items := by
  induction items using List.reverseRecOn with
  | nil => exact h
  | append_singleton items item ih =>
    rw [dictItems, List.foldl_append] at h
    exact List.mem_append.mpr ((mem_setItem h).imp ih List.mem_singleton.mpr)

/-- Items of which no two have the same key are all kept. -/
theorem dictItems_of_nodup {α : Type} {items : List (Text × α)} (h : (items.map Prod.fst).Nodup) :
    dictItems items = items := by
  induction items using List.reverseRecOn with
  | nil => rfl
  | append_singleton items item ih =>
    rw [List.map_append, List.nodup_append] at h
    have hnew : item.1 ∉ items.map Prod.fst := fun hmem => h.2.2 _ hmem _ (List.mem_singleton_self _) rfl
    rw [dictItems, List.foldl_append, ← dictItems, ih h.1]
    exact if_neg hnew

theorem mem_canonical_dict {members : List (Text × PyValue)} {m : Text × PyValue}
    (h : m ∈ dictItems (canonicalMembers members)) : ∃ m' ∈ members, m = (m'.1, canonical m'.2) := by
  have hmem := mem_dictItems h
  rw [canonicalMembers_eq, List.mem_map] at hmem
  obtain ⟨m', hm', rfl⟩ := hmem
  exact ⟨m', hm', rfl⟩

section
variable {onFloat onText : Text → Prop}

/-- The texts of an object are some of the value's. -/
theorem every_text_canonical {v : PyValue} (h : Every onFloat onText v) :
    Every Spelled onText (canonical v) := by
  induction v using value_induction with
  | float literal => exact ⟨_, readFloat_proper literal, rfl⟩
  | list items ih =>
    rw [Every, everyItem_iff] at h
    rw [canonical, canonicalItems_eq, Every, everyItem_iff]
    intro w hw
    obtain ⟨v, hv, rfl⟩ := List.mem_map.mp hw
    exact ih v hv (h v hv)
  | dict members ih =>
    rw [Every, everyMember_iff] at h
    rw [canonical, Every, everyMember_iff]
    intro m hm
    obtain ⟨m', hm', rfl⟩ := mem_canonical_dict hm
    exact ⟨(h m' hm').1, ih m' hm' (h m' hm').2⟩
  | _ => exact h

theorem Every.and {onFloat' onText' : Text → Prop} {v : PyValue} (h : Every onFloat onText v)
    (h' : Every onFloat' onText' v) :
    Every (fun l => onFloat l ∧ onFloat' l) (fun s => onText s ∧ onText' s) v := by
  induction v using value_induction with
  | float literal => exact ⟨h, h'⟩
  | str s => exact ⟨h, h'⟩
  | list items ih =>
    rw [Every, everyItem_iff] at *
    exact fun w hw => ih w hw (h w hw) (h' w hw)
  | dict members ih =>
    rw [Every, everyMember_iff] at *
    exact fun m hm => ⟨⟨(h m hm).1, (h' m hm).1⟩, ih m hm (h m hm).2 (h' m hm).2⟩
  | _ => trivial

theorem Every.mono {onFloat' onText' : Text → Prop} {v : PyValue} (h : Every onFloat onText v)
    (hfloat : ∀ l, onFloat l → onFloat' l) (htext : ∀ s, onText s → onText' s) :
    Every onFloat' onText' v := by
  induction v using value_induction with
  | float literal => exact hfloat literal h
  | str s => exact htext s h
  | list items ih =>
    rw [Every, everyItem_iff] at *
    exact fun w hw => ih w hw (h w hw)
  | dict members ih =>
    rw [Every, everyMember_iff] at *
    exact fun m hm => ⟨htext _ (h m hm).1, ih m hm (h m hm).2⟩
  | _ => trivial

end

theorem every_any (v : PyValue) : Every (fun _ => True) (fun _ => True) v := by
  induction v using value_induction with
  | list items ih =>
    rw [Every, everyItem_iff]
    exact ih
  | dict members ih =>
    rw [Every, everyMember_iff]
    exact fun m hm => ⟨trivial, ih m hm⟩
  | _ => trivial

/-! ## The bytes -/

/-- A character that is written as it is. -/
def Printed (c : Nat) : Prop := 32 ≤ c ∧ c < 0x80

instance (c : Nat) : Decidable (Printed c) := inferInstanceAs (Decidable (_ ∧ _))

theorem printed_digit {c : Nat} (h : isDigit c = true) : Printed c := by
  simp only [isDigit, Bool.and_eq_true, decide_eq_true_eq] at h
  exact ⟨by omega, by omega⟩

theorem printed_sign (negative : Bool) : ∀ c ∈ signText negative, Printed c := by
  cases negative <;> decide

theorem Parts.printed {whole fr ex : Text} (h : Parts whole fr ex) :
    ∀ c ∈ whole ++ (fr ++ ex), Printed c := by
  simp only [List.forall_mem_append]
  refine ⟨?_, ?_, ?_⟩
  · rcases h.whole with rfl | ⟨-, -, hdigits⟩
    · decide
    · exact fun c hc => printed_digit (hdigits c hc)
  · rcases h.fr with rfl | ⟨fs, rfl, -, hdigits⟩
    · simp
    · exact List.forall_mem_cons.mpr ⟨by decide, fun c hc => printed_digit (hdigits c hc)⟩
  · rcases h.ex with rfl | ⟨sg, es, rfl, hsign, -, hdigits⟩
    · simp
    · refine List.forall_mem_cons.mpr ⟨by decide, List.forall_mem_cons.mpr ⟨?_, fun c hc =>
        printed_digit (hdigits c hc)⟩⟩
      rcases hsign with rfl | rfl <;> decide

theorem printed_floatText {x : Double} (hx : x.Proper) : ∀ c ∈ floatText x, Printed c := by
  match x with
  | .nan => decide
  | .inf negative =>
    rw [floatText, List.forall_mem_append]
    exact ⟨printed_sign negative, by decide⟩
  | .finite negative q =>
    obtain ⟨whole, fr, ex, htext, -, hparts, -⟩ := magnitudeText_parts hx.1 hx.2.1 hx.2.2
    rw [floatText, htext, List.forall_mem_append]
    exact ⟨printed_sign negative, Parts.printed hparts⟩

theorem printed_unicodeText (n : Nat) : ∀ c ∈ unicodeText n, Printed c := by
  have hdigit (k : Nat) : Printed (hexDigit (k % 16)) := by
    unfold Printed hexDigit
    split_ifs <;> omega
  have hmark : Printed 92 ∧ Printed 117 := by decide
  simp [unicodeText, hdigit, hmark]

theorem printed_escapedChar (n : Nat) : ∀ c ∈ escapedChar n, Printed c := by
  rw [escapedChar]
  cases hletter : escapeLetter n with
  | some letter =>
    obtain ⟨-, h32, h128, -⟩ := escapeLetter_some hletter
    exact List.forall_mem_cons.mpr ⟨by decide, List.forall_mem_singleton.mpr ⟨h32, h128⟩⟩
  | none =>
    dsimp only
    split_ifs with hplain hunit
    · exact List.forall_mem_singleton.mpr ⟨hplain.1, by omega⟩
    · exact printed_unicodeText n
    · exact List.forall_mem_append.mpr ⟨printed_unicodeText _, printed_unicodeText _⟩

theorem printed_escaped (s : Text) : ∀ c ∈ escaped s, Printed c := by
  intro c hc
  obtain ⟨n, -, hc⟩ := List.mem_flatMap.mp hc
  exact printed_escapedChar n c hc

theorem printed_itemText {key t : Text} (ht : ∀ c ∈ t, Printed c) :
    ∀ c ∈ itemText (escaped key) [] [] t, Printed c := by
  simp only [itemText, List.nil_append, List.forall_mem_cons, List.forall_mem_append]
  exact ⟨by decide, printed_escaped key, by decide, by decide, ht⟩

theorem printed_itemsText {items : List PyValue} (h : ∀ v ∈ items, ∀ c ∈ objectText v, Printed c) :
    ∀ c ∈ itemsText items, Printed c := by
  induction items with
  | nil => decide
  | cons v items ih =>
    obtain ⟨hv, hitems⟩ := List.forall_mem_cons.mp h
    simp only [itemsText, List.forall_mem_cons, List.forall_mem_append]
    exact ⟨by decide, hv, ih hitems⟩

theorem printed_memberTexts {members : List (Text × PyValue)}
    (h : ∀ m ∈ members, ∀ c ∈ objectText m.2, Printed c) : ∀ c ∈ memberTexts members, Printed c := by
  induction members with
  | nil => decide
  | cons m members ih =>
    obtain ⟨hm, hmembers⟩ := List.forall_mem_cons.mp h
    simp only [memberTexts, List.forall_mem_cons, List.forall_mem_append]
    exact ⟨by decide, printed_itemText hm, ih hmembers⟩

/-- Nothing but printable ASCII is written. -/
theorem printed_objectText (v : PyValue) : ∀ c ∈ objectText v, Printed c := by
  induction v using value_induction with
  | none => decide
  | bool b => cases b <;> decide
  | int n =>
    rw [objectText, intText, List.forall_mem_append]
    exact ⟨printed_sign _, fun c hc => printed_digit (isDigit_decimalText hc)⟩
  | float literal => exact printed_floatText (readFloat_proper literal)
  | str s =>
    simp only [objectText, List.forall_mem_cons, List.forall_mem_append]
    exact ⟨by decide, printed_escaped s, by decide, List.forall_mem_nil _⟩
  | list items ih =>
    cases items with
    | nil => decide
    | cons v items =>
      obtain ⟨hv, hitems⟩ := List.forall_mem_cons.mp ih
      simp only [objectText, List.forall_mem_cons, List.forall_mem_append]
      exact ⟨by decide, hv, printed_itemsText hitems⟩
  | dict members ih =>
    cases members with
    | nil => decide
    | cons m members =>
      obtain ⟨hm, hmembers⟩ := List.forall_mem_cons.mp ih
      simp only [objectText, List.forall_mem_cons, List.forall_mem_append]
      exact ⟨by decide, printed_itemText hm, printed_memberTexts hmembers⟩

/-- What is read of a text is read of its bytes. -/
theorem loads_printed {text : Text} {v : PyValue} (hprinted : ∀ c ∈ text, Printed c)
    (h : Denotes text v) : loads (text.flatMap utf8) = .value v ∧ utf8Decode (text.flatMap utf8) = some text ∧
      decodeText text = some v := by
  have hutf8 : utf8Decode (text.flatMap utf8) = some text :=
    utf8Decode_iff.mpr ⟨fun c hc => (hprinted c hc).2.trans (by decide), rfl⟩
  have htext : decodeText text = some v :=
    decodeText_eq_some.mpr ⟨[], text, [], (List.append_nil _).symm, by simp [Blank], h, by simp [Blank]⟩
  have hbytes : ∀ b ∈ text.flatMap utf8, 0 < b ∧ b < 0x80 := by
    intro b hb
    obtain ⟨c, hc, hb⟩ := List.mem_flatMap.mp hb
    obtain ⟨h32, h128⟩ := hprinted c hc
    rw [utf8_ascii h128] at hb
    obtain rfl := List.mem_singleton.mp hb
    rw [UInt8.lt_iff_toNat_lt, UInt8.lt_iff_toNat_lt, toUInt8_toNat (by omega)]
    exact ⟨by simp; omega, h128⟩
  have hdetect : detectEncoding (text.flatMap utf8) = .utf8 :=
    detectEncoding_cstring (fun h0 => absurd (hbytes 0 h0).1 (by decide))
      fun a ha => (hbytes a (List.mem_of_mem_head? ha)).2
  refine ⟨?_, hutf8, htext⟩
  rw [loads, hdetect, decode, hutf8]
  simp only [htext]

/-! ## Numbers and names -/

/-- The `float` is a number of JSON. -/
def IsNumber (literal : Text) : Prop :=
  literal ≠ chars "NaN" ∧ literal ≠ chars "Infinity" ∧ literal ≠ chars "-Infinity"

/-- A JSON text in UTF-8: one that the reader takes without the three constants
that it has besides JSON. -/
def ValidJson (s : List UInt8) : Prop :=
  ∃ text v, (∀ c ∈ text, c.isValidChar) ∧ s = text.flatMap utf8 ∧ decodeText text = some v ∧
    Every IsNumber (fun _ => True) v

def IsFinite (literal : Text) : Prop := ∃ negative magnitude, readFloat literal = .finite negative magnitude

theorem isNumber_iff {literal : Text} (h : Spelled literal) : IsNumber literal ↔ IsFinite literal := by
  obtain ⟨x, hx, rfl⟩ := h
  have hback := (denotes_floatText hx).2
  constructor
  · rintro ⟨hnan, hinf, hneg⟩
    match x with
    | .nan => exact absurd rfl hnan
    | .inf true => exact absurd rfl hneg
    | .inf false => exact absurd rfl hinf
    | .finite negative magnitude => exact ⟨negative, magnitude, hback⟩
  · rintro ⟨negative, magnitude, hread⟩
    have hname : ∀ name, (∀ negative magnitude, readFloat name ≠ .finite negative magnitude) →
        floatText x ≠ name := by
      rintro name hname rfl
      exact hname negative magnitude hread
    exact ⟨hname _ fun _ _ => nofun, hname _ fun _ _ => nofun, hname _ fun _ _ => nofun⟩

/-- **An object is written and read back**, and what is written is JSON just if
each `float` of it is a number. -/
theorem loads_dumps {v : PyValue} (h : Every (fun _ => True) Whole (canonical v)) :
    loads ((dumps v).flatMap utf8) = .value (canonical v) ∧
      (ValidJson ((dumps v).flatMap utf8) ↔ Every IsFinite (fun _ => True) (canonical v)) := by
  have hspelled := (every_text_canonical (every_any v)).and h
  have hdenotes : Denotes (dumps v) (canonical v) :=
    denotes_objectText (hspelled.mono (fun _ hl => hl.1) fun _ hs => hs.2)
  have hprinted : ∀ c ∈ dumps v, Printed c := printed_objectText _
  obtain ⟨hloads, hutf8, htext⟩ := loads_printed hprinted hdenotes
  have hvalid : ∀ c ∈ dumps v, c.isValidChar := fun c hc => .inl ((hprinted c hc).2.trans (by decide))
  refine ⟨hloads, ?_, fun hfinite => ⟨_, _, hvalid, rfl, htext, ?_⟩⟩
  · rintro ⟨text, w, hchars, htext', hread, hnumbers⟩
    have hdecode := utf8Decode_iff.mpr ⟨fun c hc => isValidChar_lt (hchars c hc), htext'⟩
    rw [hutf8] at hdecode
    cases hdecode
    rw [htext] at hread
    cases hread
    exact (hspelled.and hnumbers).mono (fun l hl => (isNumber_iff hl.1.1).mp hl.2) fun _ _ => trivial
  · exact (hspelled.and hfinite).mono (fun l hl => (isNumber_iff hl.1.1).mpr hl.2) fun _ _ => trivial

end Syswatch.Lib.PyDumps
