import Syswatch.Lib.JsonUtf8
import Syswatch.Lib.PyDumps

/-! # Bytes that Python reads as a value

A program that puts JSON together from pieces, in UTF-8: for each kind of piece, the
value that `json.loads` finds in it. Nothing is said of white space, which such a
program does not write. -/

namespace Syswatch.Lib.PyBytes
open CText Unicode PyJson
open JsonText (Plain member quoted utf8)
open JsonUtf8 (bytes)

/-- The bytes are the text of the value, in UTF-8. -/
def Spells (b : Bytes) (v : PyValue) : Prop := ∃ text, Encodable text ∧ bytes text = b ∧ Denotes text v

/-- The characters of bytes of ASCII. -/
def asciiText (b : Bytes) : Text := b.map UInt8.toNat

/-! ## ASCII -/

theorem bytes_asciiText {s : Bytes} (h : ∀ b ∈ s, b < 0x80) : bytes (asciiText s) = s := by
  rw [asciiText, bytes, List.flatMap_map]
  calc s.flatMap (fun b => utf8 b.toNat) = s.flatMap fun b => [b] :=
        List.flatMap_congr fun b hb => (utf8_ascii (h b hb)).trans
          (congrArg (fun c => [c]) UInt8.ofNat_toNat)
    _ = s := List.flatMap_singleton' s

theorem encodable_asciiText (s : Bytes) : Encodable (asciiText s) := by
  intro c hc
  obtain ⟨b, -, rfl⟩ := List.mem_map.mp hc
  exact b.toNat_lt.trans (by decide)

theorem stringText_asciiText {s : Bytes} (h : ∀ b ∈ s, Plain b) : StringText (asciiText s) (asciiText s) := by
  refine PyDumps.stringText_of_plain fun c hc => ?_
  obtain ⟨b, hb, rfl⟩ := List.mem_map.mp hc
  obtain ⟨h32, h34, h92⟩ := h b hb
  exact ⟨UInt8.le_iff_toNat_le.mp h32, fun hq => h34 (UInt8.toNat_inj.mp hq),
    fun hq => h92 (UInt8.toNat_inj.mp hq)⟩

theorem bytes_append (x y : Text) : bytes (x ++ y) = bytes x ++ bytes y := List.flatMap_append

theorem bytes_mark {c : Nat} (hc : c < 0x80) (x : Text) : bytes (c :: x) = c.toUInt8 :: bytes x := by
  rw [bytes, bytes, List.flatMap_cons, utf8_ascii hc]
  rfl

theorem encodable_concat {x y : Text} (hx : Encodable x) (hy : Encodable y) : Encodable (x ++ y) :=
  List.forall_mem_append.mpr ⟨hx, hy⟩

theorem encodable_mark {x : Text} (hx : Encodable x) {c : Nat} (hc : c < 0x80) : Encodable (c :: x) :=
  List.forall_mem_cons.mpr ⟨by omega, hx⟩

theorem encodable_nil : Encodable [] := List.forall_mem_nil _

theorem blank_nil : Blank [] := List.forall_mem_nil _

/-! ## Numbers and strings -/

theorem decimal_lt (n : Nat) : ∀ b ∈ decimal n, b < 0x80 := by
  intro b hb
  have h := isDigit_of_mem_decimal hb
  simp only [CText.isDigit, Bool.and_eq_true, decide_eq_true_eq] at h
  exact UInt8.lt_of_le_of_lt h.2 (by decide)

theorem spells_decimal (n : Nat) : Spells (decimal n) (.int n) := by
  have hread := PyFloat.denotes_intText n
  refine ⟨asciiText (decimal n), encodable_asciiText _, bytes_asciiText (decimal_lt n), ?_⟩
  have hsign : PyFloat.signText (decide ((n : Int) < 0)) = [] := by simp [PyFloat.signText]
  rwa [PyFloat.intText, hsign] at hread

/-- Digits, a point and digits. -/
theorem spells_fixed (whole part : Nat) : Spells (decimal whole ++ 46 :: decimal part)
    (.float (asciiText (decimal whole ++ 46 :: decimal part))) := by
  have hwhole : PyFloat.decimalText whole = [48] ∨ PyFloat.decimalText whole ≠ [] ∧
      (PyFloat.decimalText whole).head? ≠ some 48 ∧ ∀ c ∈ PyFloat.decimalText whole, isDigit c = true := by
    rcases Nat.eq_zero_or_pos whole with rfl | h
    · exact .inl (by decide)
    · exact .inr ⟨PyFloat.decimalText_ne_nil _, PyFloat.decimalText_head h, fun c => PyFloat.isDigit_decimalText⟩
  have hparts : PyFloat.Parts (PyFloat.decimalText whole) (46 :: PyFloat.decimalText part) [] :=
    ⟨hwhole, .inr ⟨_, rfl, PyFloat.decimalText_ne_nil _, fun c => PyFloat.isDigit_decimalText⟩, .inl rfl⟩
  have hread := hparts.denotes false
  have htext : asciiText (decimal whole ++ 46 :: decimal part) =
      PyFloat.decimalText whole ++ 46 :: PyFloat.decimalText part := by
    simp [asciiText, PyFloat.decimalText]
  have hascii : ∀ b ∈ decimal whole ++ 46 :: decimal part, b < 0x80 := by
    rw [List.forall_mem_append, List.forall_mem_cons]
    exact ⟨decimal_lt whole, by decide, decimal_lt part⟩
  refine ⟨_, encodable_asciiText _, bytes_asciiText hascii, ?_⟩
  rw [if_neg (by simp), List.append_nil] at hread
  rwa [htext]

theorem spells_string {x decoded : Text} (henc : Encodable x) (hx : StringText x decoded) :
    Spells (quoted (bytes x)) (.str decoded) := by
  refine ⟨34 :: (x ++ [34]), ?_, ?_, hx.denotes⟩
  · exact encodable_mark (encodable_concat henc (encodable_mark encodable_nil (by decide))) (by decide)
  · rw [bytes_mark (by decide), bytes_append, bytes_mark (by decide)]
    rfl

/-- A text of plain characters stands for itself. -/
theorem spells_plain {x : Text} (henc : Encodable x) (h : ∀ b ∈ bytes x, Plain b) :
    Spells (quoted (bytes x)) (.str x) := by
  refine spells_string henc (PyDumps.stringText_of_plain fun c hc => ?_)
  by_cases hlow : c < 0x80
  · have hmem : c.toUInt8 ∈ bytes x := List.mem_flatMap.mpr ⟨c, hc, by rw [utf8_ascii hlow]; simp⟩
    obtain ⟨h32, h34, h92⟩ := h _ hmem
    have hself : c.toUInt8.toNat = c := toUInt8_toNat (by omega)
    refine ⟨hself ▸ UInt8.le_iff_toNat_le.mp h32, fun hq => h34 ?_, fun hq => h92 ?_⟩
    · rw [hq]; rfl
    · rw [hq]; rfl
  · omega

theorem spells_ascii {s : Bytes} (h : ∀ b ∈ s, Plain b ∧ b < 0x80) : Spells (quoted s) (.str (asciiText s)) := by
  have hspells := spells_string (encodable_asciiText s) (stringText_asciiText fun b hb => (h b hb).1)
  rwa [bytes_asciiText fun b hb => (h b hb).2] at hspells

/-! ## Arrays and objects -/

theorem elements_spelled {es : List (Bytes × PyValue)} (hne : es ≠ []) (h : ∀ e ∈ es, Spells e.1 e.2) :
    ∃ u, Encodable u ∧ bytes u = List.intercalate [44] (es.map Prod.fst) ++ [93] ∧
      ElementsText u (es.map Prod.snd) := by
  induction es with
  | nil => exact absurd rfl hne
  | cons e es ih =>
    obtain ⟨text, henc, hbytes, hread⟩ := h e List.mem_cons_self
    cases es with
    | nil =>
      refine ⟨text ++ [93], encodable_concat henc (encodable_mark encodable_nil (by decide)), ?_, hread.last blank_nil⟩
      rw [bytes_append, hbytes, bytes_mark (by decide)]
      simp
    | cons e' es =>
      obtain ⟨u, hu, hrest, helements⟩ := ih (List.cons_ne_nil _ _) fun x hx => h x (List.mem_cons_of_mem e hx)
      refine ⟨text ++ 44 :: u, encodable_concat henc (encodable_mark hu (by decide)), ?_,
        hread.cons blank_nil blank_nil helements⟩
      rw [bytes_append, hbytes, bytes_mark (by decide), hrest]
      simp

theorem spells_array {es : List (Bytes × PyValue)} (h : ∀ e ∈ es, Spells e.1 e.2) :
    Spells (91 :: (List.intercalate [44] (es.map Prod.fst) ++ [93])) (.list (es.map Prod.snd)) := by
  by_cases hne : es = []
  · subst hne
    exact ⟨[91, 93], encodable_mark (encodable_mark encodable_nil (by decide)) (by decide), rfl, (denotes_empty blank_nil).2⟩
  · obtain ⟨u, henc, hbytes, hread⟩ := elements_spelled hne h
    exact ⟨91 :: u, encodable_mark henc (by decide), by rw [bytes_mark (by decide), hbytes]; rfl,
      hread.denotes blank_nil⟩

/-- A key that needs no escaping. -/
def PlainKey (key : Bytes) : Prop := ∀ b ∈ key, Plain b ∧ b < 0x80

instance (key : Bytes) : Decidable (PlainKey key) := inferInstanceAs (Decidable (∀ b ∈ key, _))

theorem bytes_item {key : Bytes} (hkey : PlainKey key) {text : Text} {v : Bytes} (h : bytes text = v) :
    bytes (itemText (asciiText key) [] [] text) = member key v := by
  rw [itemText, bytes_mark (by decide), bytes_append, bytes_asciiText fun b hb => (hkey b hb).2,
    bytes_mark (by decide), List.nil_append, bytes_mark (by decide), List.nil_append, h]
  rfl

theorem encodable_item (key : Bytes) {text : Text} (h : Encodable text) :
    Encodable (itemText (asciiText key) [] [] text) :=
  encodable_mark (encodable_concat (encodable_asciiText key)
    (encodable_mark (encodable_mark h (by decide)) (by decide))) (by decide)

theorem members_spelled {ms : List (Bytes × Bytes × PyValue)} (hne : ms ≠ [])
    (h : ∀ m ∈ ms, PlainKey m.1 ∧ Spells m.2.1 m.2.2) :
    ∃ u, Encodable u ∧ bytes u = List.intercalate [44] (ms.map fun m => member m.1 m.2.1) ++ [125] ∧
      MembersText u (ms.map fun m => (asciiText m.1, m.2.2)) := by
  induction ms with
  | nil => exact absurd rfl hne
  | cons m ms ih =>
    obtain ⟨hkey, text, henc, hbytes, hread⟩ := h m List.mem_cons_self
    have hname := stringText_asciiText fun b hb => (hkey b hb).1
    cases ms with
    | nil =>
      refine ⟨itemText (asciiText m.1) [] [] text ++ [125],
        encodable_concat (encodable_item m.1 henc) (encodable_mark encodable_nil (by decide)), ?_,
        MembersText.last hname blank_nil blank_nil hread blank_nil⟩
      rw [bytes_append, bytes_item hkey hbytes, bytes_mark (by decide)]
      simp
    | cons m' ms =>
      obtain ⟨u, hu, hrest, hmembers⟩ := ih (List.cons_ne_nil _ _) fun x hx => h x (List.mem_cons_of_mem m hx)
      refine ⟨itemText (asciiText m.1) [] [] text ++ 44 :: u,
        encodable_concat (encodable_item m.1 henc) (encodable_mark hu (by decide)), ?_,
        MembersText.cons hname blank_nil blank_nil hread blank_nil blank_nil hmembers⟩
      rw [bytes_append, bytes_item hkey hbytes, bytes_mark (by decide), hrest]
      simp

theorem spells_object {ms : List (Bytes × Bytes × PyValue)} (h : ∀ m ∈ ms, PlainKey m.1 ∧ Spells m.2.1 m.2.2) :
    Spells (123 :: (List.intercalate [44] (ms.map fun m => member m.1 m.2.1) ++ [125]))
      (.dict (ms.map fun m => (asciiText m.1, m.2.2))) := by
  by_cases hne : ms = []
  · subst hne
    exact ⟨[123, 125], encodable_mark (encodable_mark encodable_nil (by decide)) (by decide), rfl, (denotes_empty blank_nil).1⟩
  · obtain ⟨u, henc, hbytes, hread⟩ := members_spelled hne h
    exact ⟨123 :: u, encodable_mark henc (by decide), by rw [bytes_mark (by decide), hbytes]; rfl,
      hread.denotes blank_nil⟩

/-! ## Reading the bytes -/

theorem Spells.decoded {b : Bytes} {v : PyValue} (h : Spells b v) :
    ∃ text, utf8Decode b = some text ∧ decodeText text = some v := by
  obtain ⟨text, henc, hbytes, hread⟩ := h
  exact ⟨text, utf8Decode_iff.mpr ⟨henc, hbytes.symm⟩,
    decodeText_eq_some.mpr ⟨[], text, [], by simp, blank_nil, hread, blank_nil⟩⟩

/-- **What is written so is read so.** -/
theorem Spells.loads {b : Bytes} {v : PyValue} (h : Spells b v) (h0 : (0 : UInt8) ∉ b)
    (hfirst : ∀ a ∈ b.head?, a < 0x80) : PyJson.loads b = .value v := by
  obtain ⟨text, hdecode, hread⟩ := h.decoded
  rw [PyJson.loads, detectEncoding_cstring h0 hfirst, decode, hdecode]
  simp only [hread]

end Syswatch.Lib.PyBytes
