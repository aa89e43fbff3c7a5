import Syswatch.Lib.JsonUtf8
import Syswatch.Lib.PyDumps

/-! # The texts of a decoded value

Whatever `json.loads` takes, and in whatever encoding, the texts that it returns
are made of code points: of those that stand in the bytes, and of those that
escapes stand for. -/

namespace Syswatch.Lib.PyTexts
open CText Unicode PyJson PyDumps
open JsonUtf8 (encodable_append encodable_cons)

theorem hexVal_lt {c n : Nat} (h : hexVal c = some n) : n < 16 := by
  unfold hexVal at h
  split_ifs at h <;> cases h <;> omega

theorem hex4_lt {s r : Text} {n : Nat} (h : hex4 s = some (n, r)) : n < 0x10000 := by
  match s with
  | [] | [_] | [_, _] | [_, _, _] => cases h
  | a :: b :: c :: d :: s =>
    simp only [hex4, Option.bind_eq_bind, Option.bind_eq_some_iff] at h
    obtain ⟨x, ha, y, hb, z, hc, w, hd, h⟩ := h
    cases h
    have := hexVal_lt ha
    have := hexVal_lt hb
    have := hexVal_lt hc
    have := hexVal_lt hd
    omega

theorem lowSurrogate_low {s r : Text} {n : Nat} (h : lowSurrogate s = some (n, r)) : IsLow n := by
  unfold lowSurrogate at h
  split at h
  · rw [Option.filter_eq_some_iff] at h
    simpa [IsLow] using h.2
  · cases h

theorem unicodeEscape_lt {s r : Text} {n : Nat} (h : unicodeEscape s = some (n, r)) : n < 0x110000 := by
  obtain ⟨⟨m, s₁⟩, hhex, hpair⟩ := Option.map_eq_some_iff.mp h
  have hm := hex4_lt hhex
  dsimp only at hpair
  split at hpair
  · next low hlow =>
    split_ifs at hlow with hhigh
    obtain ⟨rfl, -⟩ := Prod.mk.injEq .. ▸ hpair
    have := lowSurrogate_low (n := low.1) (r := low.2) hlow
    unfold IsLow at this
    omega
  · obtain ⟨rfl, -⟩ := Prod.mk.injEq .. ▸ hpair
    omega

theorem escape_lt {s r : Text} {n : Nat} (h : escape s = some (n, r)) : n < 0x110000 := by
  cases s with
  | nil => cases h
  | cons c s =>
    rw [escape] at h
    split at h
    · next m hsimple =>
      cases h
      unfold simpleEscape at hsimple
      split_ifs at hsimple <;> cases hsimple <;> omega
    · split_ifs at h
      exact unicodeEscape_lt h

theorem string_encodable {fuel : Nat} : ∀ {s d r : Text}, Encodable s → string fuel s = some (d, r) →
    Encodable d := by
  induction fuel with
  | zero => intro s d r _ h; cases h
  | succ fuel ih =>
    intro s d r henc h
    cases s with
    | nil => cases h
    | cons c s =>
      obtain ⟨hc, henc'⟩ := encodable_cons henc
      rw [string] at h
      split_ifs at h with h34 h92 h32
      · cases h
        exact List.forall_mem_nil _
      · simp only [Option.bind_eq_some_iff, Option.map_eq_some_iff] at h
        obtain ⟨⟨n, s₁⟩, he, ⟨d', r'⟩, hs, heq⟩ := h
        cases heq
        obtain ⟨x, rfl, -⟩ := string_takes hs
        obtain ⟨p, rfl, -⟩ := escape_takes he
        exact List.forall_mem_cons.mpr ⟨escape_lt he, ih (encodable_append henc') hs⟩
      · obtain ⟨⟨d', r'⟩, hs, heq⟩ := Option.map_eq_some_iff.mp h
        cases heq
        exact List.forall_mem_cons.mpr ⟨hc, ih henc' hs⟩

/-- What each of the three readers makes of characters that are, at some fuel. -/
structure EncodableAt (fuel : Nat) : Prop where
  value : ∀ {s r : Text} {v : PyValue}, Encodable s → value fuel s = some (v, r) →
    Every (fun _ => True) Encodable v ∧ Encodable r
  members : ∀ {s r : Text} {ms : List (Text × PyValue)}, Encodable s → members fuel s = some (ms, r) →
    EveryMember (fun _ => True) Encodable ms ∧ Encodable r
  elements : ∀ {s r : Text} {items : List PyValue}, Encodable s → elements fuel s = some (items, r) →
    EveryItem (fun _ => True) Encodable items ∧ Encodable r

theorem encodable_skipWs {s : Text} (h : Encodable s) : Encodable (skipWs s) :=
  fun n hn => h n (List.dropWhile_subset _ hn)

theorem encodable_tail {c : Nat} {s r : Text} (h : Encodable s) (hs : skipWs s = c :: r) : Encodable r := by
  have hskip := encodable_skipWs h
  rw [hs] at hskip
  exact (encodable_cons hskip).2

theorem string_rest {fuel : Nat} {s d r : Text} (henc : Encodable s) (h : string fuel s = some (d, r)) :
    Encodable r := by
  obtain ⟨x, rfl, -⟩ := string_takes h
  exact encodable_append (x := x ++ [34]) (by simpa using henc)

theorem scalar_every {c : Nat} {s r : Text} {v : PyValue} (henc : Encodable (c :: s))
    (h : constant (c :: s) = some (v, r) ∨ number (c :: s) = some (v, r)) :
    Every (fun _ => True) Encodable v ∧ Encodable r := by
  obtain ⟨t, ht, -⟩ := scalar_takes h
  refine ⟨?_, encodable_append (ht ▸ henc)⟩
  rcases h with h | h
  · obtain ⟨⟨t, u⟩, hfind, hv⟩ := Option.map_eq_some_iff.mp h
    cases hv
    have hmem : (t, u) ∈ constants := List.mem_of_find?_eq_some hfind
    simp only [constants, List.mem_cons, List.mem_nil_iff, or_false, Prod.mk.injEq] at hmem
    rcases hmem with ⟨-, rfl⟩ | ⟨-, rfl⟩ | ⟨-, rfl⟩ | ⟨-, rfl⟩ | ⟨-, rfl⟩ | ⟨-, rfl⟩
    all_goals trivial
  · obtain ⟨w, -, hv⟩ := Option.map_eq_some_iff.mp h
    dsimp only at hv
    split_ifs at hv <;> cases hv <;> trivial

theorem EncodableAt.succ {fuel : Nat} (ih : EncodableAt fuel) : EncodableAt (fuel + 1) where
  value {s r v} henc h := by
    cases s with
    | nil => cases h
    | cons c s =>
      obtain ⟨hc, henc'⟩ := encodable_cons henc
      rw [PyJson.value] at h
      split_ifs at h with h34 h123 hempty h91 hempty
      · obtain ⟨⟨d, r'⟩, hd, heq⟩ := Option.map_eq_some_iff.mp h
        cases heq
        exact ⟨string_encodable henc' hd, string_rest henc' hd⟩
      · cases h
        exact ⟨trivial, fun n hn => encodable_skipWs henc' n (List.mem_of_mem_tail hn)⟩
      · obtain ⟨⟨ms, r'⟩, hms, heq⟩ := Option.map_eq_some_iff.mp h
        cases heq
        exact ih.members (encodable_skipWs henc') hms
      · cases h
        exact ⟨trivial, fun n hn => encodable_skipWs henc' n (List.mem_of_mem_tail hn)⟩
      · obtain ⟨⟨items, r'⟩, hitems, heq⟩ := Option.map_eq_some_iff.mp h
        cases heq
        exact ih.elements (encodable_skipWs henc') hitems
      · split at h
        · next u hconstant =>
          rw [h] at hconstant
          exact scalar_every henc (.inl hconstant)
        · exact scalar_every henc (.inr h)
  members {s r ms} henc h := by
    rw [PyJson.members.eq_def] at h
    dsimp only at h
    split at h
    · next s =>
      have henc' := (encodable_cons henc).2
      rw [Option.bind_eq_some_iff] at h
      obtain ⟨⟨key, s₁⟩, hkey, h⟩ := h
      have henc₁ := string_rest henc' hkey
      split at h
      · next s₂ hcolon =>
        rw [Option.bind_eq_some_iff] at h
        obtain ⟨⟨v, s₃⟩, hv, h⟩ := h
        obtain ⟨hevery, henc₃⟩ := ih.value (encodable_skipWs (encodable_tail henc₁ hcolon)) hv
        have hitem := And.intro (string_encodable henc' hkey) hevery
        split at h
        · next s₄ hcomma =>
          obtain ⟨⟨ms', r'⟩, hms, heq⟩ := Option.map_eq_some_iff.mp h
          cases heq
          obtain ⟨hmembers, henc₄⟩ := ih.members (encodable_skipWs (encodable_tail henc₃ hcomma)) hms
          exact ⟨⟨hitem, hmembers⟩, henc₄⟩
        · next s₄ hbrace =>
          cases h
          exact ⟨⟨hitem, trivial⟩, encodable_tail henc₃ hbrace⟩
        · cases h
      · cases h
    · cases h
  elements {s r items} henc h := by
    rw [PyJson.elements, Option.bind_eq_some_iff] at h
    obtain ⟨⟨v, s₁⟩, hv, h⟩ := h
    obtain ⟨hevery, henc₁⟩ := ih.value henc hv
    split at h
    · next rest hcomma =>
      obtain ⟨⟨vs, r'⟩, hvs, heq⟩ := Option.map_eq_some_iff.mp h
      cases heq
      obtain ⟨hitems, henc₂⟩ := ih.elements (encodable_skipWs (encodable_tail henc₁ hcomma)) hvs
      exact ⟨⟨hevery, hitems⟩, henc₂⟩
    · next rest hbracket =>
      cases h
      exact ⟨⟨hevery, trivial⟩, encodable_tail henc₁ hbracket⟩
    · cases h

theorem encodableAt (fuel : Nat) : EncodableAt fuel := by
  induction fuel with
  | zero => constructor <;> intro _ _ _ _ h <;> cases h
  | succ fuel ih => exact ih.succ

/-! ## The encodings -/

theorem units16_lt {little : Bool} {s : Bytes} : ∀ {units : List Nat}, units16 little s = some units →
    ∀ n ∈ units, n < 0x10000 := by
  induction s using units16.induct with
  | case1 =>
    rintro units ⟨⟩
    exact List.forall_mem_nil _
  | case2 a b s ih =>
    intro units h
    obtain ⟨rest, hrest, rfl⟩ := Option.map_eq_some_iff.mp h
    refine List.forall_mem_cons.mpr ⟨?_, ih hrest⟩
    have := a.toNat_lt
    have := b.toNat_lt
    cases little <;> simp [unitValue] <;> omega
  | case3 s hnil hcons =>
    intro units h
    rw [units16] at h
    · cases h
    · exact hnil
    · exact hcons

theorem joinSurrogates_lt {units : List Nat} (h : ∀ n ∈ units, n < 0x10000) :
    Encodable (joinSurrogates units) := by
  induction units using joinSurrogates.induct with
  | case1 high low s hpair ih =>
    rw [joinSurrogates, if_pos hpair]
    refine List.forall_mem_cons.mpr ⟨by omega, ih fun n hn => h n ?_⟩
    exact List.mem_cons_of_mem _ (List.mem_cons_of_mem _ hn)
  | case2 high low s hpair ih =>
    rw [joinSurrogates, if_neg hpair]
    refine List.forall_mem_cons.mpr ⟨?_, ih fun n hn => h n (List.mem_cons_of_mem _ hn)⟩
    exact (h high List.mem_cons_self).trans (by decide)
  | case3 s hs =>
    rw [joinSurrogates]
    · exact fun n hn => (h n hn).trans (by decide)
    · exact hs

theorem utf16Decode_encodable {little : Bool} {s : Bytes} {text : Text}
    (h : utf16Decode little s = some text) : Encodable text := by
  obtain ⟨units, hunits, rfl⟩ := Option.map_eq_some_iff.mp h
  exact joinSurrogates_lt (units16_lt hunits)

theorem utf32Decode_encodable {little : Bool} : ∀ {s : Bytes} {text : Text},
    utf32Decode little s = some text → Encodable text
  | [], _, h => by
    cases h
    exact List.forall_mem_nil _
  | [_], _, h | [_, _], _, h | [_, _, _], _, h => nomatch h
  | a :: b :: c :: d :: s, text, h => by
    rw [utf32Decode] at h
    by_cases hn : unitValue little [a, b, c, d] < 0x110000
    · obtain ⟨rest, hrest, rfl⟩ := Option.map_eq_some_iff.mp ((if_pos hn).symm.trans h)
      exact List.forall_mem_cons.mpr ⟨hn, utf32Decode_encodable hrest⟩
    · cases (if_neg hn).symm.trans h

theorem decode_encodable {s : Bytes} {encoding : Encoding} {text : Text}
    (h : decode s encoding = some text) : Encodable text := by
  cases encoding with
  | utf8 => exact (utf8Decode_iff.mp h).1
  | utf8Sig => exact (utf8Decode_iff.mp h).1
  | utf16 =>
    rw [decode] at h
    split_ifs at h
    · exact utf16Decode_encodable h
    · exact utf16Decode_encodable h
    · exact utf16Decode_encodable h
  | utf16Le => exact utf16Decode_encodable h
  | utf16Be => exact utf16Decode_encodable h
  | utf32 =>
    rw [decode] at h
    split_ifs at h
    · exact utf32Decode_encodable h
    · exact utf32Decode_encodable h
    · exact utf32Decode_encodable h
  | utf32Le => exact utf32Decode_encodable h
  | utf32Be => exact utf32Decode_encodable h

/-- **Each text of a loaded value** is one of code points. -/
theorem loads_encodable {s : Bytes} {v : PyValue} (h : loads s = .value v) :
    Every (fun _ => True) Encodable v := by
  unfold loads at h
  split at h
  · cases h
  · next text htext =>
    split at h
    · cases h
    · next v' hread =>
      cases h
      obtain ⟨fuel, r, hvalue, -⟩ := decodeText_iff.mp hread
      exact ((encodableAt fuel).value (encodable_skipWs (decode_encodable htext)) hvalue).1

end Syswatch.Lib.PyTexts
