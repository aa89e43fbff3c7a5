import Syswatch.Lib.PyJson

/-! # JSON texts in UTF-8

What the reader of `JsonText` takes off the bytes of a text, Python's reader
takes off the text. The bytes of the grammar are ASCII, and the others stand in
strings only, where both readers pass over them. -/

namespace Syswatch.Lib.JsonUtf8
open CText Unicode
open JsonText (utf8)

variable {t t' : Text} {b : UInt8} {r : Bytes}

abbrev bytes (t : Text) : Bytes := t.flatMap utf8

theorem encodable_append {x y : Text} (h : Encodable (x ++ y)) : Encodable y :=
  fun n hn => h n (List.mem_append_right x hn)

theorem encodable_cons {n : Nat} (h : Encodable (n :: t)) : n < 0x110000 ∧ Encodable t :=
  ⟨h n List.mem_cons_self, fun m hm => h m (List.mem_cons_of_mem n hm)⟩

/-! ## Single characters -/

/-- A byte of ASCII at the front is a character. -/
theorem cons_of_ascii (henc : Encodable t) (hb : b < 0x80) (h : bytes t = b :: r) :
    ∃ t', t = b.toNat :: t' ∧ r = bytes t' := by
  cases t with
  | nil => cases h
  | cons n t =>
    rw [bytes, List.flatMap_cons] at h
    by_cases hn : n < 0x80
    · rw [utf8_ascii hn] at h
      cases h
      exact ⟨t, by rw [toUInt8_toNat (by omega)], rfl⟩
    · obtain ⟨c, cs, hc⟩ := List.exists_cons_of_ne_nil (utf8_ne_nil n)
      have hhigh := utf8_high (Nat.le_of_not_lt hn) (encodable_cons henc).1 c (by simp [hc])
      rw [hc] at h
      cases h
      exact absurd hb (UInt8.not_lt.mpr hhigh)

/-- Both readers classify a character alike, and of those outside of ASCII it admits none. -/
structure Agree (p : UInt8 → Bool) (q : Nat → Bool) : Prop where
  onBytes : ∀ b, p b = true → b < 0x80
  onChars : ∀ n, q n = true → n < 0x80
  onAscii : ∀ n < 0x80, p n.toUInt8 = q n

theorem agree_of_decide {p : UInt8 → Bool} {q : Nat → Bool}
    (h : ∀ n : Fin 256, p n.val.toUInt8 = (decide (n.val < 0x80) && q n.val))
    (hq : ∀ n, q n = true → n < 0x80) : Agree p q where
  onBytes b hb := by
    have hself : b.toNat.toUInt8 = b := UInt8.ofNat_toNat
    have hboth := h ⟨b.toNat, b.toNat_lt⟩
    simp only [hself, hb] at hboth
    exact of_decide_eq_true (Bool.and_eq_true _ _ ▸ hboth.symm).1
  onChars := hq
  onAscii n hn := by
    rw [h ⟨n, by omega⟩, decide_eq_true hn, Bool.true_and]

theorem agree_isWs : Agree JsonText.isWs PyJson.isWs :=
  agree_of_decide (by decide +kernel) fun n h => by
    simp only [PyJson.isWs, Bool.or_eq_true, beq_iff_eq] at h
    omega

theorem agree_isDigit : Agree isDigit PyJson.isDigit :=
  agree_of_decide (by decide +kernel) fun n h => by
    simp only [PyJson.isDigit, Bool.and_eq_true, decide_eq_true_eq] at h
    omega

/-- The first byte of a character is admitted if the character is. -/
theorem Agree.first {p : UInt8 → Bool} {q : Nat → Bool} (h : Agree p q) {n : Nat} (hn : n < 0x110000) :
    ∃ b bs, utf8 n = b :: bs ∧ p b = q n ∧ (q n = true → bs = []) := by
  obtain ⟨b, bs, hb⟩ := List.exists_cons_of_ne_nil (utf8_ne_nil n)
  refine ⟨b, bs, hb, ?_⟩
  by_cases hlt : n < 0x80
  · rw [utf8_ascii hlt] at hb
    cases hb
    exact ⟨h.onAscii n hlt, fun _ => rfl⟩
  · have hhigh := utf8_high (Nat.le_of_not_lt hlt) hn b (by simp [hb])
    have hp : p b = false := by
      rw [← Bool.not_eq_true]
      exact fun hp => absurd (h.onBytes b hp) (UInt8.not_lt.mpr hhigh)
    have hq : q n = false := by
      rw [← Bool.not_eq_true]
      exact fun hq => hlt (h.onChars n hq)
    exact ⟨hp.trans hq.symm, fun h => absurd h (by simp [hq])⟩

theorem Agree.takeWhile {p : UInt8 → Bool} {q : Nat → Bool} (h : Agree p q) (henc : Encodable t) :
    (bytes t).takeWhile p = bytes (t.takeWhile q) ∧ (bytes t).dropWhile p = bytes (t.dropWhile q) := by
  induction t with
  | nil => exact ⟨rfl, rfl⟩
  | cons n t ih =>
    obtain ⟨hn, henc⟩ := encodable_cons henc
    obtain ⟨b, bs, hb, hpq, hbs⟩ := h.first hn
    simp only [bytes, List.flatMap_cons, hb, List.cons_append]
    cases hq : q n with
    | true =>
      obtain rfl := hbs hq
      simp [hpq, hq, hb, ih henc]
    | false => simp [hpq, hq, hb]

theorem skipWs_bytes (henc : Encodable t) : JsonText.skipWs (bytes t) = bytes (PyJson.skipWs t) :=
  (agree_isWs.takeWhile henc).2

/-! ## Strings -/

theorem hexVal_toUInt8 : ∀ n : Fin 256, JsonText.hexVal n.val.toUInt8 =
    if n.val < 0x80 then PyJson.hexVal n.val else none := by
  decide +kernel

theorem hexVal_bytes {n : Nat} (h : JsonText.hexVal b = some n) : b < 0x80 ∧ PyJson.hexVal b.toNat = some n := by
  have hself : b.toNat.toUInt8 = b := UInt8.ofNat_toNat
  have hboth := hexVal_toUInt8 ⟨b.toNat, b.toNat_lt⟩
  simp only [hself, h] at hboth
  split_ifs at hboth with hlt
  exact ⟨hlt, hboth.symm⟩

theorem hexVal_chars {c n : Nat} (h : PyJson.hexVal c = some n) :
    utf8 c = [c.toUInt8] ∧ JsonText.hexVal c.toUInt8 = some n := by
  have hlt : c < 0x80 := by
    unfold PyJson.hexVal at h
    split_ifs at h <;> omega
  exact ⟨utf8_ascii hlt, (hexVal_toUInt8 ⟨c, by omega⟩).trans ((if_pos hlt).trans h)⟩

theorem hex4_bytes {n : Nat} (henc : Encodable t) (h : JsonText.hex4 (bytes t) = some (n, r)) :
    ∃ t', PyJson.hex4 t = some (n, t') ∧ r = bytes t' := by
  generalize hs : bytes t = s at h
  match s with
  | [] | [_] | [_, _] | [_, _, _] => cases h
  | a :: b :: c :: d :: s =>
    simp only [JsonText.hex4, Option.bind_eq_bind, Option.bind_eq_some_iff] at h
    obtain ⟨x, ha, y, hb, z, hc, w, hd, h⟩ := h
    cases h
    obtain ⟨haAscii, ha⟩ := hexVal_bytes ha
    obtain ⟨hbAscii, hb⟩ := hexVal_bytes hb
    obtain ⟨hcAscii, hc⟩ := hexVal_bytes hc
    obtain ⟨hdAscii, hd⟩ := hexVal_bytes hd
    obtain ⟨t₁, rfl, hs₁⟩ := cons_of_ascii henc haAscii hs
    obtain ⟨t₂, rfl, hs₂⟩ := cons_of_ascii (encodable_cons henc).2 hbAscii hs₁.symm
    obtain ⟨t₃, rfl, hs₃⟩ := cons_of_ascii (encodable_append (x := [_, _]) henc) hcAscii hs₂.symm
    obtain ⟨t₄, rfl, hs₄⟩ := cons_of_ascii (encodable_append (x := [_, _, _]) henc) hdAscii hs₃.symm
    exact ⟨t₄, by simp [PyJson.hex4, ha, hb, hc, hd], hs₄⟩

theorem hex4_chars {n : Nat} (h : PyJson.hex4 t = some (n, t')) :
    JsonText.hex4 (bytes t) = some (n, bytes t') := by
  match t with
  | [] | [_] | [_, _] | [_, _, _] => cases h
  | a :: b :: c :: d :: t =>
    simp only [PyJson.hex4, Option.bind_eq_bind, Option.bind_eq_some_iff] at h
    obtain ⟨x, ha, y, hb, z, hc, w, hd, h⟩ := h
    cases h
    obtain ⟨haAscii, ha⟩ := hexVal_chars ha
    obtain ⟨hbAscii, hb⟩ := hexVal_chars hb
    obtain ⟨hcAscii, hc⟩ := hexVal_chars hc
    obtain ⟨hdAscii, hd⟩ := hexVal_chars hd
    simp [JsonText.hex4, haAscii, hbAscii, hcAscii, hdAscii, ha, hb, hc, hd]

theorem lowSurrogate_bytes {n : Nat} (henc : Encodable t) (h : JsonText.lowSurrogate (bytes t) = some (n, r)) :
    ∃ t', PyJson.lowSurrogate t = some (n, t') ∧ r = bytes t' := by
  generalize hs : bytes t = s at h
  unfold JsonText.lowSurrogate at h
  split at h
  · next s =>
    obtain ⟨t₁, rfl, hs₁⟩ := cons_of_ascii henc (by decide) hs
    obtain ⟨t₂, rfl, rfl⟩ := cons_of_ascii (encodable_cons henc).2 (by decide) hs₁.symm
    rw [Option.filter_eq_some_iff] at h
    obtain ⟨t', hread, rfl⟩ := hex4_bytes (encodable_append (x := [_, _]) henc) h.1
    exact ⟨t', Option.filter_eq_some_iff.mpr ⟨hread, h.2⟩, rfl⟩
  · cases h

theorem lowSurrogate_chars {n : Nat} (h : PyJson.lowSurrogate t = some (n, t')) :
    JsonText.lowSurrogate (bytes t) = some (n, bytes t') := by
  unfold PyJson.lowSurrogate at h
  split at h
  · next t =>
    rw [Option.filter_eq_some_iff] at h
    have hread := hex4_chars h.1
    exact Option.filter_eq_some_iff.mpr ⟨hread, h.2⟩
  · cases h

theorem unicodeEscape_bytes {e : Bytes} (henc : Encodable t) (h : JsonText.unicodeEscape (bytes t) = some (e, r)) :
    ∃ n t', PyJson.unicodeEscape t = some (n, t') ∧ Encodable t' ∧ r = bytes t' := by
  obtain ⟨⟨m, s⟩, hhex, hpair⟩ := Option.map_eq_some_iff.mp h
  obtain ⟨t₁, hread, rfl⟩ := hex4_bytes henc hhex
  have henc₁ : Encodable t₁ := by
    obtain ⟨p, rfl, -⟩ := PyJson.hex4_takes hread
    exact encodable_append henc
  dsimp only at hpair
  by_cases hhigh : 0xD800 ≤ m ∧ m < 0xDC00
  · rw [if_pos hhigh] at hpair
    cases hlow : JsonText.lowSurrogate (bytes t₁) with
    | some low =>
      obtain ⟨t₂, hlow', hr⟩ := lowSurrogate_bytes (n := low.1) (r := low.2) henc₁ hlow
      rw [hlow] at hpair
      obtain ⟨-, rfl⟩ := Prod.mk.injEq .. ▸ hpair
      have henc₂ : Encodable t₂ := by
        obtain ⟨p, rfl, -⟩ := PyJson.lowSurrogate_takes hlow'
        exact encodable_append henc₁
      exact ⟨0x10000 + 1024 * (m - 0xD800) + (low.1 - 0xDC00), t₂,
        by simp only [PyJson.unicodeEscape, hread, Option.map_some, if_pos hhigh, hlow'], henc₂, hr⟩
    | none =>
      rw [hlow] at hpair
      obtain ⟨-, rfl⟩ := Prod.mk.injEq .. ▸ hpair
      have hnone : PyJson.lowSurrogate t₁ = none := by
        cases hsome : PyJson.lowSurrogate t₁ with
        | none => rfl
        | some low =>
          obtain ⟨n, rest⟩ := low
          rw [lowSurrogate_chars hsome] at hlow
          cases hlow
      exact ⟨m, t₁, by simp only [PyJson.unicodeEscape, hread, Option.map_some, if_pos hhigh, hnone], henc₁, rfl⟩
  · rw [if_neg hhigh] at hpair
    obtain ⟨-, rfl⟩ := Prod.mk.injEq .. ▸ hpair
    exact ⟨m, t₁, by simp only [PyJson.unicodeEscape, hread, Option.map_some, if_neg hhigh], henc₁, rfl⟩

theorem simpleEscape_toUInt8 : ∀ n : Fin 256, (JsonText.simpleEscape n.val.toUInt8).isSome =
    (PyJson.simpleEscape n.val).isSome ∧
      ((JsonText.simpleEscape n.val.toUInt8).isSome = true → n.val < 0x80) := by
  decide +kernel

theorem escape_bytes {e : Bytes} (henc : Encodable t) (h : JsonText.escape (bytes t) = some (e, r)) :
    ∃ n t', PyJson.escape t = some (n, t') ∧ Encodable t' ∧ r = bytes t' := by
  generalize hs : bytes t = s at h
  cases s with
  | nil => cases h
  | cons c s =>
    have hself : c.toNat.toUInt8 = c := UInt8.ofNat_toNat
    obtain ⟨hiff, hascii⟩ := simpleEscape_toUInt8 ⟨c.toNat, c.toNat_lt⟩
    simp only [hself] at hiff hascii
    rw [JsonText.escape] at h
    cases hsimple : JsonText.simpleEscape c with
    | some m =>
      rw [hsimple] at h hiff hascii
      cases h
      obtain ⟨t, rfl, rfl⟩ := cons_of_ascii henc (hascii rfl) hs
      obtain ⟨n, hn⟩ := Option.isSome_iff_exists.mp hiff.symm
      exact ⟨n, t, by rw [PyJson.escape, hn], (encodable_cons henc).2, rfl⟩
    | none =>
      rw [hsimple] at h hiff
      dsimp only at h
      split_ifs at h with hc
      subst hc
      obtain ⟨t, rfl, rfl⟩ := cons_of_ascii henc (by decide) hs
      exact unicodeEscape_bytes (encodable_cons henc).2 h

/-- Bytes outside of ASCII are read one by one. -/
theorem string_high {x s : Bytes} (hx : ∀ b ∈ x, 0x80 ≤ b) : ∀ {fuel : Nat} {d : Bytes},
    JsonText.string fuel (x ++ s) = some (d, r) →
      ∃ fuel' d', fuel' + x.length = fuel ∧ JsonText.string fuel' s = some (d', r) := by
  induction x with
  | nil => exact fun h => ⟨_, _, rfl, h⟩
  | cons b x ih =>
    intro fuel d h
    have hb := hx b List.mem_cons_self
    cases fuel with
    | zero => cases h
    | succ fuel =>
      have hne {c : UInt8} (hc : c < 0x80) : b ≠ c := by
        rintro rfl
        exact absurd hc (UInt8.not_lt.mpr hb)
      rw [List.cons_append, JsonText.string, if_neg (hne (by decide)), if_neg (hne (by decide)),
        if_neg (UInt8.not_lt.mpr (UInt8.le_trans (by decide) hb))] at h
      obtain ⟨⟨d₁, r₁⟩, hrest, heq⟩ := Option.map_eq_some_iff.mp h
      cases heq
      obtain ⟨fuel', d', hfuel, hread⟩ := ih (fun c hc => hx c (List.mem_cons_of_mem b hc)) hrest
      exact ⟨fuel', d', by rw [List.length_cons, ← Nat.add_assoc, hfuel], hread⟩

theorem string_bytes (fuel : Nat) : ∀ {t : Text} {d r : Bytes}, Encodable t →
    JsonText.string fuel (bytes t) = some (d, r) →
      ∃ fuel' d' t', PyJson.string fuel' t = some (d', t') ∧ r = bytes t' := by
  induction fuel using Nat.strongRecOn with
  | ind fuel ih =>
    intro t d r henc h
    cases t with
    | nil => cases fuel <;> cases h
    | cons n t =>
      obtain ⟨hn, henc⟩ := encodable_cons henc
      rw [bytes, List.flatMap_cons] at h
      by_cases hlt : n < 0x80
      · have hself : n.toUInt8.toNat = n := toUInt8_toNat (by omega)
        have heq (k : UInt8) : n.toUInt8 = k ↔ n = k.toNat := by
          rw [← UInt8.toNat_inj, hself]
        have hquote : n.toUInt8 = 34 ↔ n = 34 := heq 34
        have hbackslash : n.toUInt8 = 92 ↔ n = 92 := heq 92
        have hcontrol : n.toUInt8 < 32 ↔ n < 32 := by
          rw [UInt8.lt_iff_toNat_lt, hself]
          rfl
        rw [utf8_ascii hlt, List.singleton_append] at h
        cases fuel with
        | zero => cases h
        | succ fuel =>
          rw [JsonText.string] at h
          simp only [hquote, hbackslash, hcontrol] at h
          split_ifs at h with h34 h92 h32
          · cases h
            exact ⟨1, [], t, by rw [PyJson.string, if_pos h34], rfl⟩
          · rw [Option.bind_eq_some_iff] at h
            obtain ⟨⟨e, s⟩, hescape, hrest⟩ := h
            rw [Option.map_eq_some_iff] at hrest
            obtain ⟨⟨d₁, r₁⟩, hrest, hd⟩ := hrest
            cases hd
            obtain ⟨k, t₁, hread, henc₁, rfl⟩ := escape_bytes henc hescape
            obtain ⟨fuel', d', t', hstring, hr⟩ := ih fuel (Nat.lt_succ_self _) henc₁ hrest
            refine ⟨fuel' + 1, k :: d', t', ?_, hr⟩
            rw [PyJson.string, if_neg h34, if_pos h92, hread, Option.bind_some, hstring]
            rfl
          · obtain ⟨⟨d₁, r₁⟩, hrest, hd⟩ := Option.map_eq_some_iff.mp h
            cases hd
            obtain ⟨fuel', d', t', hstring, hr⟩ := ih fuel (Nat.lt_succ_self _) henc hrest
            refine ⟨fuel' + 1, n :: d', t', ?_, hr⟩
            rw [PyJson.string, if_neg h34, if_neg h92, if_neg h32, hstring]
            rfl
      · have hlt := Nat.le_of_not_lt hlt
        obtain ⟨fuel₁, d₁, hfuel, hrest⟩ := string_high (utf8_high hlt hn) h
        have hpos := List.length_pos_iff.mpr (utf8_ne_nil n)
        obtain ⟨fuel', d', t', hstring, hr⟩ := ih fuel₁ (by omega) henc hrest
        refine ⟨fuel' + 1, n :: d', t', ?_, hr⟩
        rw [PyJson.string, if_neg (by omega), if_neg (by omega), if_neg (by omega), hstring]
        rfl

/-! ## Numbers and constants -/

theorem bytes_eq_nil : bytes t = [] ↔ t = [] := by
  cases t with
  | nil => simp [bytes]
  | cons n t => simp [bytes, utf8_ne_nil]

theorem sign_bytes {p : UInt8 → Bool} {q : Nat → Bool} (h : Agree p q) (henc : Encodable t) :
    JsonText.sign p (bytes t) = (bytes (PyJson.sign q t).1, bytes (PyJson.sign q t).2) := by
  cases t with
  | nil => rfl
  | cons n t =>
    obtain ⟨b, bs, hb, hpq, hbs⟩ := h.first (encodable_cons henc).1
    rw [bytes, List.flatMap_cons, hb, List.cons_append, JsonText.sign, PyJson.sign, hpq]
    split
    · next hq =>
      obtain rfl := hbs hq
      simp [bytes, hb]
    · simp [bytes, hb]

theorem digits_bytes (henc : Encodable t) :
    JsonText.digits (bytes t) = (bytes (PyJson.digits t).1, bytes (PyJson.digits t).2) :=
  Prod.ext (agree_isDigit.takeWhile henc).1 (agree_isDigit.takeWhile henc).2

theorem numberPart_bytes {mark signs : UInt8 → Bool} {mark' signs' : Nat → Bool} (hmark : Agree mark mark')
    (hsigns : Agree signs signs') (henc : Encodable t) {x : Bytes}
    (h : JsonText.numberPart mark signs (bytes t) = some (x, r)) :
    (∃ c t₁, t = c :: t₁ ∧ mark' c = true ∧ (PyJson.digits (PyJson.sign signs' t₁).2).1 ≠ [] ∧
        r = bytes (PyJson.digits (PyJson.sign signs' t₁).2).2) ∨
      (∀ c ∈ t.head?, mark' c = false) ∧ r = bytes t := by
  cases t with
  | nil =>
    cases h
    exact .inr ⟨by simp, rfl⟩
  | cons n t =>
    obtain ⟨hn, henc⟩ := encodable_cons henc
    obtain ⟨b, bs, hb, hpq, hbs⟩ := hmark.first hn
    rw [bytes, List.flatMap_cons, hb, List.cons_append, JsonText.numberPart, hpq] at h
    split at h
    · next hq =>
      obtain rfl := hbs hq
      have hsign : Encodable (PyJson.sign signs' t).2 := by
        have := (PyJson.sign_takes signs' t).1
        rw [this] at henc
        exact encodable_append henc
      rw [List.nil_append, sign_bytes hsigns henc] at h
      simp only [digits_bytes hsign, bytes_eq_nil] at h
      split_ifs at h with hds
      cases h
      exact .inl ⟨n, t, rfl, hq, hds, rfl⟩
    · next hq =>
      cases h
      exact .inr ⟨fun c hc => by cases hc; simpa using hq, by rw [bytes, List.flatMap_cons, hb]; rfl⟩

theorem agree_eq (k : Nat) (hk : k < 0x80) : Agree (· == k.toUInt8) (· == k) where
  onBytes b hb := by
    rw [beq_iff_eq] at hb
    rw [hb, UInt8.lt_iff_toNat_lt, toUInt8_toNat (by omega)]
    exact hk
  onChars n hn := by
    rw [beq_iff_eq] at hn
    omega
  onAscii n hn := by
    rw [Bool.eq_iff_iff, beq_iff_eq, beq_iff_eq, ← UInt8.toNat_inj, toUInt8_toNat (by omega),
      toUInt8_toNat (by omega)]

theorem Agree.or {p p' : UInt8 → Bool} {q q' : Nat → Bool} (h : Agree p q) (h' : Agree p' q') :
    Agree (fun b => p b || p' b) fun n => q n || q' n where
  onBytes b hb := (Bool.or_eq_true _ _ ▸ hb).elim (h.onBytes b) (h'.onBytes b)
  onChars n hn := (Bool.or_eq_true _ _ ▸ hn).elim (h.onChars n) (h'.onChars n)
  onAscii n hn := by rw [h.onAscii n hn, h'.onAscii n hn]

theorem agree_never : Agree (fun _ => false) fun _ => false where
  onBytes _ h := nomatch h
  onChars _ h := nomatch h
  onAscii _ _ := rfl

theorem fraction_bytes (henc : Encodable t) {x : Bytes}
    (h : JsonText.numberPart (· == 46) (fun _ => false) (bytes t) = some (x, r)) :
    r = bytes (PyJson.fraction t).2 := by
  rcases numberPart_bytes (agree_eq 46 (by decide)) agree_never henc h with
    ⟨c, t₁, rfl, hc, hds, rfl⟩ | ⟨hnone, rfl⟩
  · have hsign : (PyJson.sign (fun _ => false) t₁).2 = t₁ := by cases t₁ <;> rfl
    rw [hsign] at hds ⊢
    rw [PyJson.fraction, if_pos ⟨beq_iff_eq.mp hc, hds⟩]
  · rw [PyJson.fraction_nil fun c hc => beq_eq_false_iff_ne.mp (hnone c hc)]

theorem exponent_bytes (henc : Encodable t) {x : Bytes}
    (h : JsonText.numberPart (fun c => c == 101 || c == 69) (fun c => c == 43 || c == 45) (bytes t) =
      some (x, r)) : r = bytes (PyJson.exponent t).2 := by
  rcases numberPart_bytes ((agree_eq 101 (by decide)).or (agree_eq 69 (by decide)))
    ((agree_eq 43 (by decide)).or (agree_eq 45 (by decide))) henc h with
    ⟨c, t₁, rfl, hc, hds, rfl⟩ | ⟨hnone, rfl⟩
  · simp only [Bool.or_eq_true, beq_iff_eq] at hc
    rw [PyJson.exponent, if_pos ⟨hc, hds⟩]
  · rw [PyJson.exponent_nil fun c hc => by simpa using hnone c hc]

/-- A zero stands alone in front of what is no digit. -/
theorem integerPart_digits {s : Text} (hne : (PyJson.digits s).1 ≠ [])
    (hzero : (PyJson.digits s).1.head? = some 48 → (PyJson.digits s).1 = [48]) :
    ∃ w, PyJson.integerPart s = some (w, (PyJson.digits s).2) := by
  cases s with
  | nil => exact absurd rfl hne
  | cons c s =>
    rw [PyJson.integerPart]
    by_cases h48 : c = 48
    · subst h48
      have hsplit := (PyJson.digits_split (48 :: s)).1
      rw [hzero rfl] at hsplit
      have hs : s = (PyJson.digits (48 :: s)).2 := (List.cons.inj hsplit).2
      exact ⟨[48], by rw [if_pos rfl, ← hs]⟩
    · have hdigit : PyJson.isDigit c = true := by
        by_contra hc
        exact hne (List.takeWhile_cons_of_neg hc)
      exact ⟨(PyJson.digits (c :: s)).1, by rw [if_neg h48, if_pos hdigit]⟩

theorem number_bytes (henc : Encodable t) {x : Bytes} (h : JsonText.number (bytes t) = some (x, r)) :
    ∃ v t', PyJson.number t = some (v, t') ∧ r = bytes t' := by
  have hsign : JsonText.sign (· == 45) (bytes t) =
      (bytes (PyJson.sign (· == 45) t).1, bytes (PyJson.sign (· == 45) t).2) :=
    sign_bytes (agree_eq 45 (by decide)) henc
  have hminus : Encodable (PyJson.sign (· == 45) t).2 := by
    have := (PyJson.sign_takes (· == 45) t).1
    rw [this] at henc
    exact encodable_append henc
  unfold JsonText.number at h
  rw [hsign] at h
  simp only [digits_bytes hminus, bytes_eq_nil] at h
  split_ifs at h with hds
  rw [not_or] at hds
  obtain ⟨⟨fr, s₂⟩, hfr, h⟩ := Option.bind_eq_some_iff.mp h
  obtain ⟨⟨ex, s₃⟩, hex, h⟩ := Option.map_eq_some_iff.mp h
  cases h
  obtain ⟨w, hw⟩ := integerPart_digits hds.1 fun h48 => by
    obtain ⟨ds, hcons⟩ := List.head?_eq_some_iff.mp h48
    rw [hcons] at hds
    have hone := not_not.mp (not_and.mp hds.2 rfl)
    rw [bytes, List.flatMap_cons] at hone
    have hnone : bytes ds = [] := (List.cons.inj hone).2
    rw [hcons, bytes_eq_nil.mp hnone]
  have hrest : Encodable (PyJson.digits (PyJson.sign (· == 45) t).2).2 := by
    have := (PyJson.digits_split (PyJson.sign (· == 45) t).2).1
    rw [this] at hminus
    exact encodable_append hminus
  have hpoint : Encodable (PyJson.fraction (PyJson.digits (PyJson.sign (· == 45) t).2).2).2 := by
    have := (PyJson.fraction_takes (PyJson.digits (PyJson.sign (· == 45) t).2).2).1
    rw [this] at hrest
    exact encodable_append hrest
  obtain rfl := fraction_bytes hrest hfr
  obtain rfl := exponent_bytes hpoint hex
  rw [PyJson.number, hw, Option.map_some]
  dsimp only
  split <;> exact ⟨_, _, rfl, rfl⟩

theorem prefix_of_ascii {x : Bytes} : ∀ {t : Text}, Encodable t → (∀ b ∈ x, b < 0x80) → bytes t = x ++ r →
    ∃ t', t = x.map UInt8.toNat ++ t' ∧ r = bytes t' := by
  induction x with
  | nil => exact fun {t} _ _ h => ⟨t, rfl, h.symm⟩
  | cons b x ih =>
    intro t henc hx h
    obtain ⟨t, rfl, ht⟩ := cons_of_ascii henc (hx b List.mem_cons_self) h
    obtain ⟨t', rfl, hr⟩ := ih (encodable_cons henc).2 (fun c hc => hx c (List.mem_cons_of_mem b hc)) ht.symm
    exact ⟨t', rfl, hr⟩

theorem literal_bytes {name : Bytes} {v w : JsonText.Json} (henc : Encodable t)
    (hname : ∀ b ∈ name, b < 0x80) {u : PyJson.PyValue}
    (hread : ∀ rest, PyJson.constant (name.map UInt8.toNat ++ rest) = some (u, rest))
    (h : JsonText.literal name v (bytes t) = some (w, r)) :
    w = v ∧ ∃ t', PyJson.constant t = some (u, t') ∧ r = bytes t' := by
  unfold JsonText.literal at h
  split_ifs at h with htake
  cases h
  have hsplit := List.take_append_drop name.length (bytes t)
  rw [htake] at hsplit
  obtain ⟨t', rfl, hr⟩ := prefix_of_ascii henc hname hsplit.symm
  exact ⟨rfl, t', hread t', hr⟩

/-! ## Values -/

/-- The next character behind white space, if it is one of ASCII. -/
theorem mark_bytes (henc : Encodable t) {c : UInt8} (hc : c < 0x80) (h : JsonText.skipWs (bytes t) = c :: r) :
    ∃ ws t', t = ws ++ c.toNat :: t' ∧ PyJson.Blank ws ∧ Encodable t' ∧ r = bytes t' := by
  obtain ⟨ws, ht, hws, -⟩ := PyJson.skipWs_split t
  rw [skipWs_bytes henc] at h
  have hrest : Encodable (PyJson.skipWs t) := encodable_append (ht ▸ henc)
  obtain ⟨t', hskip, hr⟩ := cons_of_ascii hrest hc h
  rw [hskip] at ht hrest
  exact ⟨ws, t', ht, hws, (encodable_cons hrest).2, hr⟩

/-- A string behind its opening quote. -/
theorem string_text {fuel : Nat} {d : Bytes} (henc : Encodable t)
    (h : JsonText.string fuel (bytes t) = some (d, r)) :
    ∃ x d' t', t = x ++ 34 :: t' ∧ PyJson.StringText x d' ∧ Encodable t' ∧ r = bytes t' := by
  obtain ⟨fuel', d', t', hread, hr⟩ := string_bytes fuel henc h
  obtain ⟨x, rfl, hx⟩ := PyJson.string_takes hread
  exact ⟨x, d', t', rfl, hx, (encodable_cons (encodable_append henc)).2, hr⟩

/-- The value is an object for both readers. -/
def SameKind (v : JsonText.Json) (v' : PyJson.PyValue) : Prop := v.isObj = true → ∃ ms, v' = .dict ms

theorem sameKind_of_not_obj {v : JsonText.Json} (h : v.isObj = false) (v' : PyJson.PyValue) :
    SameKind v v' := by
  intro hobj
  rw [h] at hobj
  cases hobj

/-- What each of the three readers takes off the bytes, at some fuel. -/
structure TextAt (fuel : Nat) : Prop where
  value : ∀ {t : Text} {r : Bytes} {v : JsonText.Json}, Encodable t →
    JsonText.value fuel (bytes t) = some (v, r) → ∃ ws u v' t', t = ws ++ (u ++ t') ∧ PyJson.Blank ws ∧
      PyJson.Denotes u v' ∧ SameKind v v' ∧ Encodable t' ∧ r = bytes t'
  members : ∀ {t : Text} {r : Bytes} {ms : List (Bytes × JsonText.Json)}, Encodable t →
    JsonText.members fuel (bytes t) = some (ms, r) → ∃ ws u ms' t', t = ws ++ (u ++ t') ∧
      PyJson.Blank ws ∧ PyJson.MembersText u ms' ∧ Encodable t' ∧ r = bytes t'
  elements : ∀ {t : Text} {r : Bytes} {items : List JsonText.Json}, Encodable t →
    JsonText.elements fuel (bytes t) = some (items, r) → ∃ ws u items' t', t = ws ++ (u ++ t') ∧
      PyJson.Blank ws ∧ PyJson.ElementsText u items' ∧ Encodable t' ∧ r = bytes t'

/-- A scalar whose text Python's reader takes for a constant or a number. -/
theorem scalar_text {c : Nat} {u : PyJson.PyValue} (henc : Encodable (c :: t))
    (h : PyJson.constant (c :: t) = some (u, t') ∨ PyJson.number (c :: t) = some (u, t')) :
    ∃ x, c :: t = x ++ t' ∧ PyJson.Denotes x u ∧ Encodable t' := by
  obtain ⟨x, hx, hdenotes⟩ := PyJson.scalar_takes h
  exact ⟨x, hx, hdenotes, encodable_append (hx ▸ henc)⟩

theorem literal_text {c : UInt8} {s name : Bytes} {v w : JsonText.Json} {u : PyJson.PyValue} (hc : c < 0x80)
    (hkind : v.isObj = false) (hname : ∀ b ∈ name, b < 0x80)
    (hread : ∀ rest, PyJson.constant (name.map UInt8.toNat ++ rest) = some (u, rest))
    (hself : utf8 c.toNat = [c]) (henc : Encodable t) (hskip : JsonText.skipWs (bytes t) = c :: s)
    (h : JsonText.literal name v (c :: s) = some (w, r)) :
    ∃ ws x v' t', t = ws ++ (x ++ t') ∧ PyJson.Blank ws ∧ PyJson.Denotes x v' ∧ SameKind w v' ∧
      Encodable t' ∧ r = bytes t' := by
  obtain ⟨ws, t₁, rfl, hws, -, rfl⟩ := mark_bytes henc hc hskip
  have hrest : Encodable (c.toNat :: t₁) := encodable_append henc
  have hbytes : c :: bytes t₁ = bytes (c.toNat :: t₁) := by
    rw [bytes, bytes, List.flatMap_cons, hself]
    rfl
  rw [hbytes] at h
  obtain ⟨rfl, t', hconstant, rfl⟩ := literal_bytes hrest hname hread h
  obtain ⟨x, hx, hdenotes, henc'⟩ := scalar_text hrest (.inl hconstant)
  exact ⟨ws, x, u, t', by rw [hx], hws, hdenotes, sameKind_of_not_obj hkind u, henc', rfl⟩

theorem number_text {x : Bytes} (henc : Encodable t)
    (h : JsonText.number (JsonText.skipWs (bytes t)) = some (x, r)) :
    ∃ ws u v' t', t = ws ++ (u ++ t') ∧ PyJson.Blank ws ∧ PyJson.Denotes u v' ∧ Encodable t' ∧
      r = bytes t' := by
  obtain ⟨ws, ht, hws, -⟩ := PyJson.skipWs_split t
  have hrest : Encodable (PyJson.skipWs t) := encodable_append (ht ▸ henc)
  rw [skipWs_bytes henc] at h
  obtain ⟨v', t', hread, rfl⟩ := number_bytes hrest h
  have hne : PyJson.skipWs t ≠ [] := by
    intro hnil
    rw [hnil] at hread
    cases hread
  obtain ⟨n, t₁, hcons⟩ := List.exists_cons_of_ne_nil hne
  rw [hcons] at hread hrest ht
  obtain ⟨u, hu, hdenotes, henc'⟩ := scalar_text hrest (.inr hread)
  exact ⟨ws, u, v', t', hu ▸ ht, hws, hdenotes, henc', rfl⟩

theorem TextAt.succ {fuel : Nat} (ih : TextAt fuel) : TextAt (fuel + 1) where
  value {t r v} henc h := by
    rw [JsonText.value] at h
    split at h
    · cases h
    · next c s hskip =>
      split_ifs at h with h34 h123 hempty h91 hempty h116 h102 h110
      · subst h34
        obtain ⟨ws, t₁, rfl, hws, henc₁, rfl⟩ := mark_bytes henc (by decide) hskip
        obtain ⟨⟨d, r'⟩, hd, heq⟩ := Option.map_eq_some_iff.mp h
        cases heq
        obtain ⟨x, d', t', rfl, hx, henc', rfl⟩ := string_text henc₁ hd
        exact ⟨ws, _, _, t', by simp, hws, hx.denotes, sameKind_of_not_obj rfl _, henc', rfl⟩
      · subst h123
        obtain ⟨ws, t₁, rfl, hws, henc₁, rfl⟩ := mark_bytes henc (by decide) hskip
        obtain ⟨s, hs⟩ := List.head?_eq_some_iff.mp hempty
        obtain ⟨ws₁, t', rfl, hws₁, henc', rfl⟩ := mark_bytes henc₁ (by decide) hs
        rw [hs] at h
        cases h
        exact ⟨ws, _, _, t', by simp, hws, (PyJson.denotes_empty hws₁).1, fun _ => ⟨_, rfl⟩, henc', rfl⟩
      · subst h123
        obtain ⟨ws, t₁, rfl, hws, henc₁, rfl⟩ := mark_bytes henc (by decide) hskip
        obtain ⟨⟨ms, r'⟩, hms, heq⟩ := Option.map_eq_some_iff.mp h
        cases heq
        obtain ⟨ws₁, u, ms', t', rfl, hws₁, hu, henc', rfl⟩ := ih.members henc₁ hms
        exact ⟨ws, _, _, t', by simp, hws, hu.denotes hws₁, fun _ => ⟨_, rfl⟩, henc', rfl⟩
      · subst h91
        obtain ⟨ws, t₁, rfl, hws, henc₁, rfl⟩ := mark_bytes henc (by decide) hskip
        obtain ⟨s, hs⟩ := List.head?_eq_some_iff.mp hempty
        obtain ⟨ws₁, t', rfl, hws₁, henc', rfl⟩ := mark_bytes henc₁ (by decide) hs
        rw [hs] at h
        cases h
        exact ⟨ws, _, _, t', by simp, hws, (PyJson.denotes_empty hws₁).2, sameKind_of_not_obj rfl _, henc', rfl⟩
      · subst h91
        obtain ⟨ws, t₁, rfl, hws, henc₁, rfl⟩ := mark_bytes henc (by decide) hskip
        obtain ⟨⟨items, r'⟩, hitems, heq⟩ := Option.map_eq_some_iff.mp h
        cases heq
        obtain ⟨ws₁, u, items', t', rfl, hws₁, hu, henc', rfl⟩ := ih.elements henc₁ hitems
        exact ⟨ws, _, _, t', by simp, hws, hu.denotes hws₁, sameKind_of_not_obj rfl _, henc', rfl⟩
      · exact literal_text (by decide) (by decide) (by decide) (fun _ => rfl) rfl henc (h116 ▸ hskip) (h116 ▸ h)
      · exact literal_text (by decide) (by decide) (by decide) (fun _ => rfl) rfl henc (h102 ▸ hskip) (h102 ▸ h)
      · exact literal_text (by decide) (by decide) (by decide) (fun _ => rfl) rfl henc (h110 ▸ hskip) (h110 ▸ h)
      · obtain ⟨⟨x, r'⟩, hnumber, heq⟩ := Option.map_eq_some_iff.mp h
        cases heq
        rw [← hskip] at hnumber
        obtain ⟨ws, u, v', t', rfl, hws, hu, henc', rfl⟩ := number_text henc hnumber
        exact ⟨ws, u, v', t', rfl, hws, hu, sameKind_of_not_obj rfl _, henc', rfl⟩
  members {t r ms} henc h := by
    rw [JsonText.members] at h
    split at h
    · next s hskip =>
      obtain ⟨ws, t₁, rfl, hws, henc₁, rfl⟩ := mark_bytes henc (by decide) hskip
      rw [Option.bind_eq_some_iff] at h
      obtain ⟨⟨key, s₁⟩, hkey, h⟩ := h
      obtain ⟨x, k, t₂, rfl, hx, henc₂, rfl⟩ := string_text henc₁ hkey
      split at h
      · next s₂ hcolon =>
        obtain ⟨ws₁, t₃, rfl, hws₁, henc₃, rfl⟩ := mark_bytes henc₂ (by decide) hcolon
        rw [Option.bind_eq_some_iff] at h
        obtain ⟨⟨v, s₃⟩, hv, h⟩ := h
        obtain ⟨ws₂, u, v', t₄, rfl, hws₂, hu, -, henc₄, rfl⟩ := ih.value henc₃ hv
        split at h
        · next s₄ hcomma =>
          obtain ⟨ws₃, t₅, rfl, hws₃, henc₅, rfl⟩ := mark_bytes henc₄ (by decide) hcomma
          obtain ⟨⟨ms', r'⟩, hms, heq⟩ := Option.map_eq_some_iff.mp h
          cases heq
          obtain ⟨ws₄, u', ms', t', rfl, hws₄, hu', henc', rfl⟩ := ih.members henc₅ hms
          exact ⟨ws, _, _, t', by simp [PyJson.itemText], hws,
            PyJson.MembersText.cons hx hws₁ hws₂ hu hws₃ hws₄ hu', henc', rfl⟩
        · next s₄ hbrace =>
          obtain ⟨ws₃, t', rfl, hws₃, henc', rfl⟩ := mark_bytes henc₄ (by decide) hbrace
          cases h
          exact ⟨ws, _, _, t', by simp [PyJson.itemText], hws,
            PyJson.MembersText.last hx hws₁ hws₂ hu hws₃, henc', rfl⟩
        · cases h
      · cases h
    · cases h
  elements {t r items} henc h := by
    rw [JsonText.elements, Option.bind_eq_some_iff] at h
    obtain ⟨⟨v, s⟩, hv, h⟩ := h
    obtain ⟨ws, u, v', t₁, rfl, hws, hu, -, henc₁, rfl⟩ := ih.value henc hv
    split at h
    · next s₁ hcomma =>
      obtain ⟨ws₁, t₂, rfl, hws₁, henc₂, rfl⟩ := mark_bytes henc₁ (by decide) hcomma
      obtain ⟨⟨vs, r'⟩, hvs, heq⟩ := Option.map_eq_some_iff.mp h
      cases heq
      obtain ⟨ws₂, u', items', t', rfl, hws₂, hu', henc', rfl⟩ := ih.elements henc₂ hvs
      exact ⟨ws, _, _, t', by simp, hws, hu.cons hws₁ hws₂ hu', henc', rfl⟩
    · next s₁ hbracket =>
      obtain ⟨ws₁, t', rfl, hws₁, henc', rfl⟩ := mark_bytes henc₁ (by decide) hbracket
      cases h
      exact ⟨ws, _, _, t', by simp, hws, hu.last hws₁, henc', rfl⟩
    · cases h

theorem textAt (fuel : Nat) : TextAt fuel := by
  induction fuel with
  | zero => constructor <;> intro _ _ _ _ h <;> cases h
  | succ fuel ih => exact ih.succ

theorem parse_bytes {v : JsonText.Json} (henc : Encodable t) (h : JsonText.parse (bytes t) = some v) :
    ∃ v', PyJson.decodeText t = some v' ∧ SameKind v v' := by
  unfold JsonText.parse at h
  split at h
  · next v₁ s hread =>
    split_ifs at h with hs
    cases h
    obtain ⟨ws, u, v', t', rfl, hws, hu, hkind, henc', rfl⟩ := (textAt _).value henc hread
    rw [skipWs_bytes henc', bytes_eq_nil] at hs
    exact ⟨v', PyJson.decodeText_eq_some.mpr ⟨ws, u, t', rfl, hws, hu, PyJson.skipWs_eq_nil.mp hs⟩, hkind⟩
  · cases h

/-! ## Parts of a text -/

theorem stringText_text {x : Text} {d : Bytes} (henc : Encodable x) (h : JsonText.StringText (bytes x) d) :
    ∃ d', PyJson.StringText x d' := by
  have hread := h ((bytes x).length + 1) [] (Nat.lt_succ_self _)
  have hquote : bytes x ++ [34] = bytes (x ++ [34]) := by
    rw [bytes, bytes, List.flatMap_append]
    rfl
  have hall : Unicode.Encodable (x ++ [34]) := by
    rw [Unicode.Encodable, List.forall_mem_append]
    exact ⟨henc, by decide⟩
  rw [hquote] at hread
  obtain ⟨y, d', rest, heq, hy, -, hrest⟩ := string_text hall hread
  obtain rfl := bytes_eq_nil.mp hrest.symm
  exact ⟨d', List.append_cancel_right heq ▸ hy⟩

/-- **A JSON text is one for Python** just if it is UTF-8. -/
theorem loads_of_parse {s : Bytes} {v : JsonText.Json} (h0 : (0 : UInt8) ∉ s)
    (hfirst : ∀ a ∈ s.head?, a < 0x80) (h : JsonText.parse s = some v) :
    (utf8Decode s = none ∧ PyJson.loads s = .unicodeDecodeError) ∨
      (utf8Decode s).isSome ∧ ∃ v', PyJson.loads s = .value v' ∧ SameKind v v' := by
  rw [PyJson.loads, detectEncoding_cstring h0 hfirst, decode]
  cases hutf8 : utf8Decode s with
  | none => exact .inl ⟨rfl, rfl⟩
  | some text =>
    obtain ⟨henc, rfl⟩ := utf8Decode_iff.mp hutf8
    obtain ⟨v', hread, hkind⟩ := parse_bytes henc h
    exact .inr ⟨rfl, v', by simp only [hread], hkind⟩

end Syswatch.Lib.JsonUtf8
