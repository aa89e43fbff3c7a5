import Syswatch.Events

/-! # What the network event says as JSON

The device entries are read one after the other. An entry whose name consists
of plain bytes is read as written; of any other entry that is read at all, the
name decodes to something else. -/

namespace Syswatch.EventJson
open Lib.CText Lib.JsonText

/-! ## RFC 3339 -/

/-- The bytes satisfy the tests, one each. -/
def shaped : List (UInt8 → Bool) → Bytes → Bool
  | [], [] => true
  | p :: ps, b :: bs => p b && shaped ps bs
  | _, _ => false

def isByte (c : UInt8) : UInt8 → Bool := (· == c)

/-- `2026-04-28T14:23:01`, not range-checked. -/
def dateTimeShape : List (UInt8 → Bool) :=
  [isDigit, isDigit, isDigit, isDigit, isByte 45, isDigit, isDigit, isByte 45, isDigit, isDigit,
    fun c => c == 84 || c == 116, isDigit, isDigit, isByte 58, isDigit, isDigit, isByte 58, isDigit,
    isDigit]

/-- `+02:00`. -/
def offsetShape : List (UInt8 → Bool) :=
  [fun c => c == 43 || c == 45, isDigit, isDigit, isByte 58, isDigit, isDigit]

/-- A date and time, a fraction of a second or none, and `Z` or a numeric offset. -/
def Rfc3339 (s : Bytes) : Prop :=
  ∃ dateTime fraction offset, s = dateTime ++ fraction ++ offset ∧
    shaped dateTimeShape dateTime = true ∧
    (fraction = [] ∨ ∃ ds, ds ≠ [] ∧ (∀ b ∈ ds, isDigit b = true) ∧ fraction = 46 :: ds) ∧
    (offset = [90] ∨ offset = [122] ∨ shaped offsetShape offset = true)

theorem plain_of_isDigit {b : UInt8} (h : isDigit b = true) : Plain b := by
  have hr : 48 ≤ b.toNat ∧ b.toNat ≤ 57 := by simpa [isDigit, UInt8.le_iff_toNat_le] using h
  refine ⟨UInt8.le_iff_toNat_le.mpr (by simp; omega), ?_, ?_⟩ <;> rintro rfl <;> simp at hr

theorem plain_of_shaped {ps : List (UInt8 → Bool)} (hps : ∀ p ∈ ps, ∀ b, p b = true → Plain b)
    {s : Bytes} (h : shaped ps s = true) : ∀ b ∈ s, Plain b := by
  induction ps generalizing s with
  | nil =>
    cases s with
    | nil => simp
    | cons b s => cases h
  | cons p ps ih =>
    cases s with
    | nil => simp
    | cons b s =>
      rw [shaped, Bool.and_eq_true] at h
      intro c hc
      rcases List.mem_cons.mp hc with rfl | hc
      · exact hps p (by simp) _ h.1
      · exact ih (fun q hq => hps q (by simp [hq])) h.2 c hc

/-- No byte that a shape admits needs escaping. -/
theorem shapes_plain : (dateTimeShape ++ offsetShape).all (fun p =>
    (List.range 256).all fun n => !p n.toUInt8 || decide (Plain n.toUInt8)) = true := by
  decide +kernel

theorem plain_of_shape {p : UInt8 → Bool} (hp : p ∈ dateTimeShape ++ offsetShape) (b : UInt8)
    (hb : p b = true) : Plain b := by
  have hc : b.toNat.toUInt8 = b := UInt8.ofNat_toNat
  have hall := List.all_eq_true.mp (List.all_eq_true.mp shapes_plain p hp) b.toNat
    (List.mem_range.mpr b.toNat_lt)
  rw [hc, hb] at hall
  simpa using hall

/-- A timestamp needs no escaping. -/
theorem Rfc3339.plain {s : Bytes} (h : Rfc3339 s) : ∀ b ∈ s, Plain b := by
  obtain ⟨dateTime, fraction, offset, rfl, hd, hf, ho⟩ := h
  have hd' : ∀ b ∈ dateTime, Plain b :=
    plain_of_shaped (fun p hp => plain_of_shape (List.mem_append_left _ hp)) hd
  have hf' : ∀ b ∈ fraction, Plain b := by
    rcases hf with rfl | ⟨ds, _, hds, rfl⟩
    · simp
    · intro b hb
      rcases List.mem_cons.mp hb with rfl | hb
      · decide
      · exact plain_of_isDigit (hds b hb)
  have ho' : ∀ b ∈ offset, Plain b := by
    rcases ho with rfl | rfl | ho
    · decide
    · decide
    · exact plain_of_shaped (fun p hp => plain_of_shape (List.mem_append_right _ hp)) ho
  intro b hb
  simp only [List.mem_append] at hb
  rcases hb with (hb | hb) | hb
  · exact hd' b hb
  · exact hf' b hb
  · exact ho' b hb

/-! ## One entry -/

/-- The entry as the members it is made of. -/
theorem rateEntryText_eq (l₁ l₂ : Bytes) (e : CString 32 × ℚ × ℚ) :
    rateEntryText l₁ l₂ e = 123 :: (member (ascii "name") (quoted e.1.bytes) ++
      44 :: (member l₁ (fmtFixed0 e.2.1) ++ 44 :: (member l₂ (fmtFixed0 e.2.2) ++ [125]))) := by
  have h₁ : ascii "\x7b\"name\":\"" = 123 :: 34 :: (ascii "name" ++ [34, 58, 34]) := rfl
  have h₂ : ascii "\",\"" = [34, 44, 34] := rfl
  have h₃ : ascii "\":" = [34, 58] := rfl
  have h₄ : ascii ",\"" = [44, 34] := rfl
  have h₅ : ascii "\x7d" = [125] := rfl
  simp only [rateEntryText, member, quoted, h₁, h₂, h₃, h₄, h₅, List.append_assoc, List.cons_append,
    List.nil_append]

/-- What an entry with a plain name is read as. -/
def entryJson (l₁ l₂ : Bytes) (e : CString 32 × ℚ × ℚ) : Json :=
  .obj [(ascii "name", .str e.1.bytes), (l₁, .num (fmtFixed0 e.2.1)), (l₂, .num (fmtFixed0 e.2.2))]

/-- The name an entry gives. -/
def nameOf (v : Json) : Option Bytes := (v.get? (ascii "name")).bind Json.str?

theorem nameOf_entryJson (l₁ l₂ : Bytes) (e : CString 32 × ℚ × ℚ) :
    nameOf (entryJson l₁ l₂ e) = some e.1.bytes := by
  simp [nameOf, entryJson, Json.get?, Json.str?]

theorem denotes_fmtFixed0 {q : ℚ} (h : 0 ≤ q) : Denotes (fmtFixed0 q) (.num (fmtFixed0 q)) := by
  rw [fmtFixed0_of_nonneg h]
  exact Denotes.decimal _

theorem entry_denotes {l₁ l₂ : Bytes} (hl₁ : ∀ b ∈ l₁, Plain b) (hl₂ : ∀ b ∈ l₂, Plain b)
    {e : CString 32 × ℚ × ℚ} (hname : ∀ b ∈ e.1.bytes, Plain b) (h₁ : 0 ≤ e.2.1) (h₂ : 0 ≤ e.2.2) :
    Denotes (rateEntryText l₁ l₂ e) (entryJson l₁ l₂ e) := by
  have hobj := Denotes.obj [(ascii "name", quoted e.1.bytes, .str e.1.bytes),
    (l₁, fmtFixed0 e.2.1, .num (fmtFixed0 e.2.1)), (l₂, fmtFixed0 e.2.2, .num (fmtFixed0 e.2.2))]
    (by simp) (by
      simp only [List.forall_mem_cons]
      exact ⟨⟨by decide, Denotes.str (StringText.of_plain hname)⟩, ⟨hl₁, denotes_fmtFixed0 h₁⟩,
        ⟨hl₂, denotes_fmtFixed0 h₂⟩, by simp⟩)
  rw [rateEntryText_eq]
  simpa only [membersText, List.append_assoc, List.cons_append, List.map_cons, List.map_nil,
    entryJson] using hobj

/-- If an entry is read and its name decodes to itself, it is plain. The first
label keeps an escaped closing quote from going unnoticed. -/
theorem plain_of_entry {c : UInt8} {l₁ l₂ : Bytes} (hws : isWs c = false) (h44 : c ≠ 44)
    (h125 : c ≠ 125) {e : CString 32 × ℚ × ℚ} {fuel : Nat} {rest r : Bytes} {v : Json}
    (hf : (rateEntryText (c :: l₁) l₂ e).length < fuel)
    (h : value fuel (rateEntryText (c :: l₁) l₂ e ++ rest) = some (v, r))
    (hname : nameOf v = some e.1.bytes) : ∀ b ∈ e.1.bytes, Plain b := by
  rw [rateEntryText_eq] at hf h
  simp only [List.length_cons, List.length_append, List.length_nil, member, quoted] at hf
  obtain ⟨n, rfl⟩ : ∃ n, fuel = n + 3 := ⟨fuel - 3, by omega⟩
  obtain ⟨tail, htail⟩ : ∃ tail, (123 :: (member (ascii "name") (quoted e.1.bytes) ++
      44 :: (member (c :: l₁) (fmtFixed0 e.2.1) ++ 44 :: (member l₂ (fmtFixed0 e.2.2) ++ [125])))) ++
        rest = 123 :: 34 :: (ascii "name" ++ 34 :: 58 :: 34 ::
          (e.1.bytes ++ 34 :: 44 :: 34 :: (c :: tail))) := ⟨_, by simp [member, quoted]; rfl⟩
  rw [htail, value_obj, Option.map_eq_some_iff] at h
  obtain ⟨⟨ms, _⟩, hms, hv⟩ := h
  obtain ⟨w, s, tl, hw, rfl, b, s', hs, hb⟩ := members_head
    (StringText.of_plain (by decide) : StringText (ascii "name") (ascii "name"))
    (by change 4 < n + 1; omega) hms
  rw [value_str, Option.map_eq_some_iff] at hw
  obtain ⟨⟨d, t⟩, hstring, hw⟩ := hw
  cases hw
  cases hv
  have hd : d = e.1.bytes := by simpa [nameOf, Json.get?, Json.str?] using hname
  rcases string_raw _ _ hstring with ⟨_, hp⟩ | hlt | rfl
  · exact hp
  · rw [hd] at hlt
    exact absurd hlt (lt_irrefl _)
  · -- the name ended inside the first label
    have hskip : skipWs (c :: tail) = c :: tail := by simp [skipWs, hws]
    rw [hskip, List.cons.injEq] at hs
    rcases hb with rfl | rfl
    · exact absurd hs.1 h44
    · exact absurd hs.1 h125

/-! ## The array of entries -/

section Entries
variable {ρ : Type} (view : ρ → CString 32 × ℚ × ℚ) (c : UInt8) (l₁ l₂ : Bytes)

def entryOf (e : ρ) : Bytes := rateEntryText (c :: l₁) l₂ (view e)

/-- The entry has a plain name. -/
def PlainName (e : ρ) : Prop := ∀ b ∈ (view e).1.bytes, Plain b

/-- The rates of an entry have no sign. -/
def Unsigned (e : ρ) : Prop := 0 ≤ (view e).2.1 ∧ 0 ≤ (view e).2.2

theorem entryOf_brace (e : ρ) (rest : Bytes) :
    ∃ t, entryOf view c l₁ l₂ e ++ rest = 123 :: t := by
  rw [entryOf, rateEntryText_eq]
  exact ⟨_, rfl⟩

variable {view c l₁ l₂}

theorem entryOf_denotes (hl₁ : ∀ b ∈ c :: l₁, Plain b) (hl₂ : ∀ b ∈ l₂, Plain b) {e : ρ}
    (hplain : PlainName view e) (hrates : Unsigned view e) :
    Denotes (entryOf view c l₁ l₂ e) (entryJson (c :: l₁) l₂ (view e)) :=
  entry_denotes hl₁ hl₂ hplain hrates.1 hrates.2

theorem elements_denote (hl₁ : ∀ b ∈ c :: l₁, Plain b) (hl₂ : ∀ b ∈ l₂, Plain b) (rest : Bytes)
    (es : List ρ) (e : ρ) (i fuel : Nat) (hplain : ∀ x ∈ e :: es, PlainName view x)
    (hrates : ∀ x ∈ e :: es, Unsigned view x)
    (hf : (entryOf view c l₁ l₂ e ++ joined (entryOf view c l₁ l₂) (i + 1) es).length + 1 < fuel) :
    elements fuel (entryOf view c l₁ l₂ e ++
      (joined (entryOf view c l₁ l₂) (i + 1) es ++ 93 :: rest)) =
        some ((e :: es).map fun x => entryJson (c :: l₁) l₂ (view x), rest) := by
  have he := entryOf_denotes hl₁ hl₂ (hplain e (by simp)) (hrates e (by simp))
  obtain ⟨n, rfl⟩ : ∃ n, fuel = n + 1 := ⟨fuel - 1, by omega⟩
  rw [List.length_append] at hf
  induction es generalizing e i n with
  | nil =>
    rw [joined, List.nil_append]
    exact elements_last he (by omega) rest
  | cons e' es ih =>
    simp only [joined, if_pos (Nat.succ_pos i), List.cons_append, List.nil_append,
      List.append_assoc, List.length_cons, List.length_append] at hf ⊢
    have he' := entryOf_denotes hl₁ hl₂ (hplain e' (by simp)) (hrates e' (by simp))
    obtain ⟨m, rfl⟩ : ∃ m, n = m + 1 := ⟨n - 1, by omega⟩
    rw [elements_cons he (by omega),
      ih e' (i + 1) (fun x hx => hplain x (by simp [List.mem_cons.mp hx]))
        (fun x hx => hrates x (by simp [List.mem_cons.mp hx])) he' m (by omega)]
    rfl

theorem plain_of_elements (hl₁ : ∀ b ∈ c :: l₁, Plain b) (hl₂ : ∀ b ∈ l₂, Plain b)
    (hws : isWs c = false) (h44 : c ≠ 44) (h125 : c ≠ 125) (rest : Bytes)
    (es : List ρ) (e : ρ) (i : Nat) {fuel : Nat} {items : List Json} {r : Bytes}
    (hrates : ∀ x ∈ e :: es, Unsigned view x)
    (hf : (entryOf view c l₁ l₂ e ++ joined (entryOf view c l₁ l₂) (i + 1) es).length + 1 < fuel)
    (h : elements fuel (entryOf view c l₁ l₂ e ++
      (joined (entryOf view c l₁ l₂) (i + 1) es ++ 93 :: rest)) = some (items, r))
    (hnames : items.map nameOf = (e :: es).map fun x => some (view x).1.bytes) :
    ∀ x ∈ e :: es, PlainName view x := by
  obtain ⟨n, rfl⟩ : ∃ n, fuel = n + 1 := ⟨fuel - 1, by omega⟩
  rw [List.length_append] at hf
  induction es generalizing e i n items with
  | nil =>
    obtain ⟨v, s, tl, hv, rfl⟩ := elements_head h
    rw [List.map_cons, List.map_cons, List.cons.injEq] at hnames
    intro x hx
    rw [List.mem_singleton.mp hx]
    exact plain_of_entry hws h44 h125 (by simp only [entryOf] at hf; omega) hv hnames.1
  | cons e' es ih =>
    simp only [joined, if_pos (Nat.succ_pos i), List.cons_append, List.nil_append,
      List.append_assoc, List.length_cons, List.length_append] at hf h
    have he : PlainName view e := by
      obtain ⟨v, s, tl, hv, rfl⟩ := elements_head h
      rw [List.map_cons, List.map_cons, List.cons.injEq] at hnames
      exact plain_of_entry hws h44 h125 (by simp only [entryOf] at hf; omega) hv hnames.1
    obtain ⟨m, rfl⟩ : ∃ m, n = m + 1 := ⟨n - 1, by omega⟩
    rw [elements_cons (entryOf_denotes hl₁ hl₂ he (hrates e (by simp))) (by omega),
      Option.map_eq_some_iff] at h
    obtain ⟨⟨items', r'⟩, hrest, heq⟩ := h
    cases heq
    rw [List.map_cons, List.map_cons, List.cons.injEq] at hnames
    intro x hx
    rcases List.mem_cons.mp hx with rfl | hx
    · exact he
    · exact ih e' (i + 1) (fun x hx => hrates x (by simp [List.mem_cons.mp hx])) hnames.2 m
        (by omega) hrest x hx

/-! ## The whole event -/

/-- The members in front of the payload, with what their values decode to. -/
def headerMembers (st : Stamp) (t : EventType) (host : Bytes) : List (Bytes × Bytes × Bytes) :=
  [(ascii "schema_version", ascii "1.0", ascii "1.0"),
    (ascii "timestamp", st.timestamp.bytes, st.timestamp.bytes),
    (ascii "host", st.host.bytes, host),
    (ascii "source", ascii "syswatch", ascii "syswatch"),
    (ascii "source_version", SYSWATCH_VERSION, SYSWATCH_VERSION),
    (ascii "event_type", t.name, t.name), (ascii "severity", ascii "info", ascii "info")]

theorem header_eq (st : Stamp) (t : EventType) (host rest : Bytes) :
    header st t ++ rest = 123 :: (stringMembers (headerMembers st t host) ++
      34 :: (ascii "payload" ++ 34 :: 58 :: 123 :: rest)) := by
  have h₁ : ascii "\x7b\"schema_version\":\"1.0\",\"timestamp\":\"" = 123 :: (member
      (ascii "schema_version") (quoted (ascii "1.0")) ++ 44 :: 34 :: (ascii "timestamp" ++
        [34, 58, 34])) := rfl
  have h₂ : ascii "\",\"host\":\"" = 34 :: 44 :: 34 :: (ascii "host" ++ [34, 58, 34]) := rfl
  have h₃ : ascii "\",\"source\":\"syswatch\",\"source_version\":\"" = 34 :: 44 :: (member
      (ascii "source") (quoted (ascii "syswatch")) ++ 44 :: 34 :: (ascii "source_version" ++
        [34, 58, 34])) := rfl
  have h₄ : ascii "\",\"event_type\":\"" = 34 :: 44 :: 34 :: (ascii "event_type" ++
      [34, 58, 34]) := rfl
  have h₅ : ascii "\",\"severity\":\"info\",\"payload\":\x7b" = 34 :: 44 :: (member
      (ascii "severity") (quoted (ascii "info")) ++ 44 :: 34 :: (ascii "payload" ++
        [34, 58, 123])) := rfl
  simp only [header, h₁, h₂, h₃, h₄, h₅, headerMembers, stringMembers, member, quoted, List.flatMap_cons,
    List.flatMap_nil, List.append_assoc, List.cons_append, List.nil_append]

/-- The host and the timestamp can stand between quotes. -/
structure Readable (st : Stamp) (host : Bytes) : Prop where
  timestamp : ∀ b ∈ st.timestamp.bytes, Plain b
  host : StringText st.host.bytes host

/-- No control character in the timestamp and the host, none in the header. -/
theorem header_printable {st : Stamp} (hts : ∀ b ∈ st.timestamp.bytes, 32 ≤ b)
    (hhost : ∀ b ∈ st.host.bytes, 32 ≤ b) (t : EventType) : ∀ b ∈ header st t, 32 ≤ b := by
  have htype : ∀ b ∈ t.name, 32 ≤ b := by cases t <;> decide
  simp only [header, List.forall_mem_append]
  exact ⟨⟨⟨⟨⟨⟨⟨⟨by decide, hts⟩, by decide⟩, hhost⟩, by decide⟩, by decide⟩, by decide⟩, htype⟩,
    by decide⟩

theorem decimal_printable (n : Nat) : ∀ b ∈ decimal n, 32 ≤ b := fun _ hb =>
  (plain_of_isDigit (isDigit_of_mem_decimal hb)).1

theorem headerMembers_read {st : Stamp} {host : Bytes} (hst : Readable st host) (t : EventType) :
    ∀ m ∈ headerMembers st t host, (∀ b ∈ m.1, Plain b) ∧ StringText m.2.1 m.2.2 := by
  have htype : ∀ b ∈ t.name, Plain b := by cases t <;> decide
  intro m hm
  simp only [headerMembers, List.mem_cons, List.not_mem_nil, or_false] at hm
  rcases hm with rfl | rfl | rfl | rfl | rfl | rfl | rfl
  · exact ⟨by decide, StringText.of_plain (by decide)⟩
  · exact ⟨(by decide : ∀ b ∈ ascii "timestamp", Plain b), StringText.of_plain hst.timestamp⟩
  · exact ⟨(by decide : ∀ b ∈ ascii "host", Plain b), hst.host⟩
  · exact ⟨by decide, StringText.of_plain (by decide)⟩
  · exact ⟨by decide, StringText.of_plain (by decide)⟩
  · exact ⟨(by decide : ∀ b ∈ ascii "event_type", Plain b), StringText.of_plain htype⟩
  · exact ⟨by decide, StringText.of_plain (by decide)⟩

/-- An event is read up to its payload whatever the payload is. -/
theorem value_header {st : Stamp} {host : Bytes} (hst : Readable st host) (t : EventType)
    (rest : Bytes) {n : Nat} (hn : (header st t).length ≤ n + 12) :
    value (n + 8) (header st t ++ rest) =
      (members n (34 :: (ascii "payload" ++ 34 :: 58 :: 123 :: rest))).map fun r =>
        (.obj ((headerMembers st t host).map (fun m => (m.1, .str m.2.2)) ++ r.1), r.2) := by
  have hlen := congrArg List.length (header_eq st t host [])
  have hkey : (ascii "payload").length = 7 := rfl
  simp only [List.append_nil, List.length_cons, List.length_append, List.length_nil] at hlen
  have hms := members_strings (headerMembers_read hst t)
    (34 :: (ascii "payload" ++ 34 :: 58 :: 123 :: rest)) (n := n) (by omega)
  rw [header_eq st t host rest]
  have hopen : ∃ tail, stringMembers (headerMembers st t host) ++
      34 :: (ascii "payload" ++ 34 :: 58 :: 123 :: rest) = 34 :: tail := ⟨_, rfl⟩
  obtain ⟨tail, htail⟩ := hopen
  rw [htail] at hms ⊢
  rw [value_obj, show n + 7 = n + (headerMembers st t host).length from rfl, hms,
    Option.map_map]
  rfl

/-- The text of an event with an array of entries, with the array's key. -/
theorem value_payload_array {es : List ρ} {key : Bytes} (hkey : ∀ b ∈ key, Plain b)
    (hl₁ : ∀ b ∈ c :: l₁, Plain b) (hl₂ : ∀ b ∈ l₂, Plain b)
    (hplain : ∀ x ∈ es, PlainName view x) (hrates : ∀ x ∈ es, Unsigned view x) :
    Denotes (123 :: (member key (91 :: (joined (entryOf view c l₁ l₂) 0 es ++ [93])) ++ [125]))
      (.obj [(key, .arr (es.map fun x => entryJson (c :: l₁) l₂ (view x)))]) := by
  have harr : Denotes (91 :: (joined (entryOf view c l₁ l₂) 0 es ++ [93]))
      (.arr (es.map fun x => entryJson (c :: l₁) l₂ (view x))) := by
    cases es with
    | nil => exact Denotes.emptyArr
    | cons e es =>
      intro fuel rest hf _
      simp only [joined, lt_irrefl, if_false, List.nil_append, List.length_cons,
        List.length_append, List.length_nil, List.cons_append, List.append_assoc] at hf ⊢
      obtain ⟨n, rfl⟩ : ∃ n, fuel = n + 1 := ⟨fuel - 1, by omega⟩
      have hread := elements_denote hl₁ hl₂ rest es e 0 n hplain hrates
        (by rw [List.length_append]; omega)
      obtain ⟨t, ht⟩ := entryOf_brace view c l₁ l₂ e
        (joined (entryOf view c l₁ l₂) (0 + 1) es ++ 93 :: rest)
      rw [ht] at hread ⊢
      rw [value_arr, hread]
      rfl
  exact Denotes.obj [(key, _, _)] (by simp) (by simpa using ⟨hkey, harr⟩)

end Entries

/-- The items of the array of that key in the payload. -/
def itemsIn (key : Bytes) (v : Json) : Option (List Json) :=
  ((v.get? (ascii "payload")).bind (Json.get? key)).bind Json.items?

/-- The names in the array of that key. -/
def namesIn (key : Bytes) (v : Json) : Option (List (Option Bytes)) :=
  ((v.get? (ascii "payload")).bind (Json.get? key)).bind Json.items? |>.map fun l => l.map nameOf

/-- The text is one JSON object on one line, whose array of that key has
entries of these names. -/
structure ValidEvent (key text : Bytes) (names : List Bytes) : Prop where
  object : ∃ v, parse text = some v ∧ v.isObj = true ∧ namesIn key v = some (names.map some)
  oneLine : (10 : UInt8) ∉ text

section Event
variable {ρ : Type} {view : ρ → CString 32 × ℚ × ℚ} {c : UInt8} {l₁ l₂ key : Bytes}

/-- What follows the header of such an event. -/
def arrayText (key entries : Bytes) : Bytes :=
  34 :: (key ++ 34 :: 58 :: 91 :: (entries ++ [93, 125, 125]))

theorem arrayText_length (key entries : Bytes) :
    (arrayText key entries).length = key.length + entries.length + 7 := by
  simp only [arrayText, List.length_append, List.length_cons, List.length_nil]
  omega

theorem header_length_ge (st : Stamp) (t : EventType) : 100 ≤ (header st t).length := by
  have hlit : ∀ s : String, (ascii s).length = s.toList.length := fun s => by simp [ascii]
  simp only [header, List.length_append, hlit]
  simp
  omega

/-- The payload is the first member of that name. -/
theorem get_payload (st : Stamp) (t : EventType) (host : Bytes) (p : Json) (ms : List (Bytes × Json)) :
    (Json.obj ((headerMembers st t host).map (fun m => (m.1, .str m.2.2)) ++
      (ascii "payload", p) :: ms)).get? (ascii "payload") = some p := by
  have hkeys : ∀ k ∈ [ascii "schema_version", ascii "timestamp", ascii "host", ascii "source",
      ascii "source_version", ascii "event_type", ascii "severity"], k ≠ ascii "payload" := by
    decide
  have hnone : ((headerMembers st t host).map fun m => (m.1, Json.str m.2.2)).find?
      (fun m => m.1 = ascii "payload") = none := by
    rw [List.find?_eq_none]
    intro m hm
    obtain ⟨m', hm', rfl⟩ := List.mem_map.mp hm
    simpa using hkeys m'.1 (List.mem_map_of_mem (f := Prod.fst) hm')
  simp [Json.get?, List.find?_append, hnone]

theorem namesIn_event (st : Stamp) (t : EventType) (host : Bytes) (p : Json) (ms : List (Bytes × Json)) :
    namesIn key (.obj ((headerMembers st t host).map (fun m => (m.1, .str m.2.2)) ++
      (ascii "payload", p) :: ms)) =
        ((p.get? key).bind Json.items?).map fun l => l.map nameOf := by
  rw [namesIn, get_payload]
  rfl

/-- The object an event decodes to. -/
def eventJson (st : Stamp) (t : EventType) (host : Bytes) (payload : Json) : Json :=
  .obj ((headerMembers st t host).map (fun m => (m.1, .str m.2.2)) ++ [(ascii "payload", payload)])

/-- An event is read by its header and its payload. -/
theorem parse_payload {st : Stamp} {host : Bytes} (hst : Readable st host) (t : EventType)
    {inside : Bytes} {v : Json} (hv : Denotes (123 :: (inside ++ [125])) v) :
    parse (header st t ++ (inside ++ [125, 125])) = some (eventJson st t host v) := by
  have hlong := header_length_ge st t
  have htext : 34 :: (ascii "payload" ++ 34 :: 58 :: 123 :: (inside ++ [125, 125])) =
      member (ascii "payload") (123 :: (inside ++ [125])) ++ [125] := by
    simp [member]
  obtain ⟨n, hn⟩ : ∃ n, (header st t ++ (inside ++ [125, 125])).length = n + 8 := ⟨_, by
    rw [List.length_append]; exact (Nat.sub_add_cancel (by omega)).symm⟩
  have hsize : (header st t).length ≤ n + 13 ∧
      (ascii "payload").length + (123 :: (inside ++ [125])).length < n := by
    rw [show (ascii "payload").length = 7 from rfl]
    simp only [List.length_append, List.length_cons, List.length_nil] at hn ⊢
    omega
  have hvalue := value_header hst t (inside ++ [125, 125]) hsize.1
  rw [htext, members_last _ (StringText.of_plain (by decide) : StringText (ascii "payload")
    (ascii "payload")) hv hsize.2] at hvalue
  rw [parse, hn, hvalue]
  rfl

theorem arrayText_eq (key entries : Bytes) : arrayText key entries =
    member key (91 :: (entries ++ [93])) ++ [125, 125] := by
  simp [member, arrayText]

/-- An event with device entries decodes to an object with exactly these entries. -/
theorem parse_entries {st : Stamp} {host : Bytes} (hst : Readable st host) (t : EventType)
    {es : List ρ} (hkey : ∀ b ∈ key, Plain b) (hl₁ : ∀ b ∈ c :: l₁, Plain b)
    (hl₂ : ∀ b ∈ l₂, Plain b) (hplain : ∀ x ∈ es, PlainName view x)
    (hrates : ∀ x ∈ es, Unsigned view x) :
    ∃ v, parse (header st t ++ arrayText key (joined (entryOf view c l₁ l₂) 0 es)) = some v ∧
      v.isObj = true ∧
      itemsIn key v = some (es.map fun x => entryJson (c :: l₁) l₂ (view x)) := by
  have hpayload := value_payload_array hkey hl₁ hl₂ hplain hrates
  refine ⟨_, by rw [arrayText_eq]; exact parse_payload hst t hpayload, rfl, ?_⟩
  rw [itemsIn, eventJson, get_payload]
  simp [Json.get?, Json.items?]

theorem parse_event {st : Stamp} {host : Bytes} (hst : Readable st host) (t : EventType) {es : List ρ}
    (hkey : ∀ b ∈ key, Plain b) (hl₁ : ∀ b ∈ c :: l₁, Plain b) (hl₂ : ∀ b ∈ l₂, Plain b)
    (hplain : ∀ x ∈ es, PlainName view x) (hrates : ∀ x ∈ es, Unsigned view x) :
    ∃ v, parse (header st t ++ arrayText key (joined (entryOf view c l₁ l₂) 0 es)) =
      some v ∧ v.isObj = true ∧ namesIn key v = some (es.map fun x => some (view x).1.bytes) := by
  obtain ⟨v, hv, hobj, hitems⟩ := parse_entries hst t hkey hl₁ hl₂ hplain hrates
  refine ⟨v, hv, hobj, ?_⟩
  have hnames : namesIn key v = (itemsIn key v).map fun l => l.map nameOf := rfl
  rw [hnames, hitems, Option.map_some, List.map_map]
  simp only [Function.comp_def, nameOf_entryJson]

/-- **Only plain names decode to themselves.** -/
theorem plain_of_parse {st : Stamp} {host : Bytes} (hst : Readable st host) (t : EventType) {es : List ρ}
    (hkey : ∀ b ∈ key, Plain b) (hl₁ : ∀ b ∈ c :: l₁, Plain b) (hl₂ : ∀ b ∈ l₂, Plain b)
    (hws : isWs c = false) (h44 : c ≠ 44) (h125 : c ≠ 125)
    (hrates : ∀ x ∈ es, Unsigned view x) {v : Json}
    (h : parse (header st t ++ arrayText key (joined (entryOf view c l₁ l₂) 0 es)) = some v)
    (hnames : namesIn key v = some (es.map fun x => some (view x).1.bytes)) :
    ∀ x ∈ es, PlainName view x := by
  cases es with
  | nil => simp
  | cons x es =>
    have hlong := header_length_ge st t
    have harray := arrayText_length key (joined (entryOf view c l₁ l₂) 0 (x :: es))
    obtain ⟨n, hn⟩ : ∃ n, (header st t ++
        arrayText key (joined (entryOf view c l₁ l₂) 0 (x :: es))).length + 1 = n + 12 := ⟨_, by
      rw [List.length_append]; exact (Nat.sub_add_cancel (by omega)).symm⟩
    have hsize := hn
    rw [List.length_append, harray, joined, if_neg (lt_irrefl 0), List.nil_append] at hsize
    obtain ⟨_, hvalue⟩ := value_of_parse h
    rw [hn, value_header hst t _ (n := n + 4) (by rw [List.length_append] at hn; omega),
      Option.map_eq_some_iff] at hvalue
    obtain ⟨⟨ms, _⟩, hms, hv⟩ := hvalue
    obtain ⟨pv, _, tl, hpv, rfl, _⟩ := members_head (StringText.of_plain (by decide) :
      StringText (ascii "payload") (ascii "payload")) (by change 7 < n + 3; omega) hms
    rw [arrayText, value_obj, Option.map_eq_some_iff] at hpv
    obtain ⟨⟨ms', _⟩, hms', hpv⟩ := hpv
    cases hpv
    obtain ⟨av, _, tl', hav, rfl, _⟩ := members_head (StringText.of_plain hkey) (by omega) hms'
    simp only [joined, lt_irrefl, if_false, List.nil_append, List.append_assoc] at hav
    obtain ⟨t, ht⟩ := entryOf_brace view c l₁ l₂ x
      (joined (entryOf view c l₁ l₂) (0 + 1) es ++ [93, 125, 125])
    rw [ht, value_arr, ← ht, Option.map_eq_some_iff] at hav
    obtain ⟨⟨items, _⟩, hitems, hav⟩ := hav
    cases hav
    cases hv
    rw [namesIn_event] at hnames
    refine plain_of_elements hl₁ hl₂ hws h44 h125 [125, 125] es x 0 hrates (by omega) hitems ?_
    simpa [Json.get?, Json.items?] using hnames

end Event

end Syswatch.EventJson
