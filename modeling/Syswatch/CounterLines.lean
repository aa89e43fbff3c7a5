import Syswatch.Disk
import Syswatch.Network

/-! # The lines of `/proc/diskstats` and `/proc/net/dev` that are recorded

Both readers keep the first lines that pass their checks. The checks do not
look at what the tenth word is: a line that comes to it has come far enough. -/

namespace Syswatch.CounterLines
open Lib.CText

/-- The counter in a column, where the word there is one. -/
def counterAt (words : List Bytes) (column : Nat) : Option UInt64 :=
  words[column]?.bind parseUll

theorem ten_words {words : List Bytes} (h : 10 ≤ words.length) :
    ∃ w₀ w₁ w₂ w₃ w₄ w₅ w₆ w₇ w₈ w₉ rest,
      words = w₀ :: w₁ :: w₂ :: w₃ :: w₄ :: w₅ :: w₆ :: w₇ :: w₈ :: w₉ :: rest := by
  have peel {k : Nat} {l : List Bytes} (hk : k + 1 ≤ l.length) :
      ∃ w rest, l = w :: rest ∧ k ≤ rest.length := by
    cases l with
    | nil => cases hk
    | cons w rest => exact ⟨w, rest, rfl, Nat.le_of_succ_le_succ hk⟩
  obtain ⟨w₀, t₀, rfl, h₀⟩ := peel h
  obtain ⟨w₁, t₁, rfl, h₁⟩ := peel h₀
  obtain ⟨w₂, t₂, rfl, h₂⟩ := peel h₁
  obtain ⟨w₃, t₃, rfl, h₃⟩ := peel h₂
  obtain ⟨w₄, t₄, rfl, h₄⟩ := peel h₃
  obtain ⟨w₅, t₅, rfl, h₅⟩ := peel h₄
  obtain ⟨w₆, t₆, rfl, h₆⟩ := peel h₅
  obtain ⟨w₇, t₇, rfl, h₇⟩ := peel h₆
  obtain ⟨w₈, t₈, rfl, h₈⟩ := peel h₇
  obtain ⟨w₉, t₉, rfl, h₉⟩ := peel h₈
  exact ⟨w₀, w₁, w₂, w₃, w₄, w₅, w₆, w₇, w₈, w₉, t₉, rfl⟩

/-! ## One line of `/proc/diskstats` -/

/-- The checks of the loop over the lines. -/
def DiskTaken (line : Bytes) : Prop :=
  10 ≤ (diskWords line).length ∧ (counterAt (diskWords line) 5).isSome ∧
    (diskWords line)[2]?.any isWholeDiskName

instance (line : Bytes) : Decidable (DiskTaken line) := inferInstanceAs (Decidable (_ ∧ _))

/-- What is recorded of a line that is taken: 0 for a tenth word that is no counter. -/
def diskEntry (line : Bytes) : DiskCounter :=
  ⟨CString.ofBytes 32 ((diskWords line)[2]?.getD []), (counterAt (diskWords line) 5).getD 0,
    (counterAt (diskWords line) 9).getD 0⟩

theorem diskTokens_field_le (l : DiskLine) (words : List Bytes) :
    (diskTokens l words).field ≤ l.field + words.length := by
  induction words generalizing l with
  | nil => exact le_rfl
  | cons w rest ih =>
    have hnext (m : DiskLine) (hm : m.field = l.field + 1) :
        (diskTokens m rest).field ≤ l.field + (rest.length + 1) := by
      have := ih m
      omega
    rw [diskTokens, List.length_cons]
    dsimp only
    split_ifs
    · exact hnext _ rfl
    · split
      · dsimp only; omega
      · exact hnext _ rfl
    · split
      · dsimp only; omega
      · dsimp only; omega
    · exact hnext _ rfl

/-- The loop over ten words and more stops at the sixth or comes to the tenth. -/
theorem diskTokens_ten {words : List Bytes} (h : 10 ≤ words.length) :
    (counterAt words 5 = none ∧ (diskTokens ⟨0, none, 0, 0⟩ words).field = 6) ∨
      ∃ read, counterAt words 5 = some read ∧
        diskTokens ⟨0, none, 0, 0⟩ words = ⟨10, words[2]?, read, (counterAt words 9).getD 0⟩ := by
  obtain ⟨w₀, w₁, w₂, w₃, w₄, w₅, w₆, w₇, w₈, w₉, rest, rfl⟩ := ten_words h
  cases h₅ : parseUll w₅ with
  | none => exact .inl ⟨h₅, by simp [diskTokens, h₅]⟩
  | some read =>
    refine .inr ⟨read, h₅, ?_⟩
    cases h₉ : parseUll w₉ with
    | none => simp [diskTokens, counterAt, h₅, h₉]
    | some written => simp [diskTokens, counterAt, h₅, h₉]

theorem diskCounter_eq (line : Bytes) :
    diskCounter line = if DiskTaken line then some (diskEntry line) else none := by
  by_cases hblank : trimWhitespace (cstr line) = []
  · have hwords : diskWords line = [] := by rw [diskWords, hblank]; rfl
    have hno : ¬ DiskTaken line := fun h => by
      have := h.1
      rw [hwords] at this
      cases this
    rw [diskCounter, if_pos hblank, if_neg hno]
  · rw [diskCounter, if_neg hblank]
    dsimp only
    by_cases hlen : 10 ≤ (diskWords line).length
    · rcases diskTokens_ten hlen with ⟨hread, hfield⟩ | ⟨read, hread, htokens⟩
      · have hno : ¬ DiskTaken line := fun h => by
          have := h.2.1
          rw [hread] at this
          cases this
        rw [if_pos (by rw [hfield]; decide), if_neg hno]
      · rw [htokens, if_neg (by simp)]
        cases hname : (diskWords line)[2]? with
        | none =>
          have := List.getElem?_eq_none_iff.mp hname
          omega
        | some name =>
          by_cases hwhole : isWholeDiskName name = true
          · have hyes : DiskTaken line := ⟨hlen, by rw [hread]; rfl, by rw [hname]; exact hwhole⟩
            rw [if_pos hyes]
            simp [hwhole, diskEntry, hname, hread]
          · have hno : ¬ DiskTaken line := fun h => hwhole (by simpa [hname] using h.2.2)
            rw [if_neg hno]
            simp [hwhole]
    · have hfield := diskTokens_field_le ⟨0, none, 0, 0⟩ (diskWords line)
      rw [if_pos (by dsimp only at hfield; omega), if_neg fun h => hlen h.1]

/-! ## One line of `/proc/net/dev` -/

/-- The words of a line. -/
def netWords (line : Bytes) : List Bytes :=
  strtokAll (fun b => b == 32 || b == 9) [] (trimWhitespace (cstr line))

/-- The name in the first column, in front of its colon. -/
def netName (words : List Bytes) : Option Bytes := words[0]?.bind (cutAt 58)

/-- The checks of the loop over the lines. -/
def NetTaken (includeLoopback : Bool) (line : Bytes) : Prop :=
  10 ≤ (netWords line).length ∧ (counterAt (netWords line) 1).isSome ∧
    (netName (netWords line)).any fun name => includeLoopback || name ≠ ascii "lo"

instance (includeLoopback : Bool) (line : Bytes) : Decidable (NetTaken includeLoopback line) :=
  inferInstanceAs (Decidable (_ ∧ _))

/-- What is recorded of a line that is taken: 0 for a tenth word that is no counter. -/
def netEntry (line : Bytes) : NetCounter :=
  ⟨CString.ofBytes 32 ((netName (netWords line)).getD []), (counterAt (netWords line) 1).getD 0,
    (counterAt (netWords line) 9).getD 0⟩

theorem netTokens_field_le (l : NetLine) (words : List Bytes) :
    (netTokens l words).field ≤ l.field + words.length := by
  induction words generalizing l with
  | nil => exact le_rfl
  | cons w rest ih =>
    have hnext (m : NetLine) (hm : m.field = l.field + 1) :
        (netTokens m rest).field ≤ l.field + (rest.length + 1) := by
      have := ih m
      omega
    rw [netTokens, List.length_cons]
    dsimp only
    split_ifs
    · split
      · dsimp only; omega
      · exact hnext _ rfl
    · split
      · dsimp only; omega
      · exact hnext _ rfl
    · split
      · dsimp only; omega
      · dsimp only; omega
    · exact hnext _ rfl

/-- The loop over ten words and more stops at the first, at the second, or comes
to the tenth. -/
theorem netTokens_ten {words : List Bytes} (h : 10 ≤ words.length) :
    (netName words = none ∧ (netTokens ⟨0, none, 0, 0⟩ words).name = none) ∨
      (∃ name, netName words = some name ∧ counterAt words 1 = none ∧
        netTokens ⟨0, none, 0, 0⟩ words = ⟨2, some name, 0, 0⟩) ∨
      ∃ name rx, netName words = some name ∧ counterAt words 1 = some rx ∧
        netTokens ⟨0, none, 0, 0⟩ words = ⟨10, some name, rx, (counterAt words 9).getD 0⟩ := by
  obtain ⟨w₀, w₁, w₂, w₃, w₄, w₅, w₆, w₇, w₈, w₉, rest, rfl⟩ := ten_words h
  cases h₀ : cutAt 58 w₀ with
  | none => exact .inl ⟨h₀, by simp [netTokens, h₀]⟩
  | some name =>
    cases h₁ : parseUll w₁ with
    | none => exact .inr (.inl ⟨name, h₀, h₁, by simp [netTokens, h₀, h₁]⟩)
    | some rx =>
      refine .inr (.inr ⟨name, rx, h₀, h₁, ?_⟩)
      cases h₉ : parseUll w₉ with
      | none => simp [netTokens, counterAt, h₀, h₁, h₉]
      | some tx => simp [netTokens, counterAt, h₀, h₁, h₉]

theorem netCounter_eq (includeLoopback : Bool) (line : Bytes) :
    netCounter includeLoopback line =
      if NetTaken includeLoopback line then some (netEntry line) else none := by
  have hshort (h : ¬ 10 ≤ (netWords line).length) : ¬ NetTaken includeLoopback line := fun ht => h ht.1
  rw [netCounter]
  dsimp only
  by_cases hblank : trimWhitespace (cstr line) = []
  · rw [if_pos hblank, if_neg (hshort (by rw [netWords, hblank]; decide))]
  · rw [if_neg hblank, ← netWords]
    by_cases hlen : 10 ≤ (netWords line).length
    · rcases netTokens_ten hlen with ⟨hname, hl⟩ | ⟨name, -, hrx, hl⟩ | ⟨name, rx, hname, hrx, hl⟩
      · have hno : ¬ NetTaken includeLoopback line := fun h => by
          have := h.2.2
          rw [hname] at this
          cases this
        rw [hl, if_neg hno]
      · have hno : ¬ NetTaken includeLoopback line := fun h => by
          have := h.2.1
          rw [hrx] at this
          cases this
        rw [hl, if_neg hno]
        simp
      · rw [hl]
        dsimp only
        rw [if_neg (by decide)]
        by_cases hkeep : (includeLoopback || name ≠ ascii "lo") = true
        · have hyes : NetTaken includeLoopback line :=
            ⟨hlen, by rw [hrx]; rfl, by rw [hname]; exact hkeep⟩
          rw [if_pos hyes, if_neg (by cases includeLoopback <;> simp_all)]
          simp [netEntry, hname, hrx]
        · have hno : ¬ NetTaken includeLoopback line := fun h => hkeep (by simpa [hname] using h.2.2)
          rw [if_neg hno, if_pos (by cases includeLoopback <;> simp_all)]
    · have hfield := netTokens_field_le ⟨0, none, 0, 0⟩ (netWords line)
      rw [if_neg (hshort hlen)]
      cases (netTokens ⟨0, none, 0, 0⟩ (netWords line)).name with
      | none => rfl
      | some name =>
        dsimp only
        rw [if_pos (by dsimp only at hfield; omega)]

/-! ## The loops over the lines -/

section Taken
variable {α β : Type} {taken : α → Bool} {line : α}

/-- The first lines that are taken. -/
def firstTaken (taken : α → Bool) (limit : Nat) (lines : List α) : List α :=
  (lines.filter taken).take limit

theorem firstTaken_cons_pos (h : taken line = true)
    (limit : Nat) (rest : List α) :
    firstTaken taken (limit + 1) (line :: rest) = line :: firstTaken taken limit rest := by
  rw [firstTaken, List.filter_cons_of_pos h, List.take_succ_cons, firstTaken]

theorem firstTaken_cons_neg (h : ¬ taken line = true)
    (limit : Nat) (rest : List α) :
    firstTaken taken limit (line :: rest) = firstTaken taken limit rest := by
  rw [firstTaken, List.filter_cons_of_neg h, firstTaken]

/-- A line that is taken is recorded behind the others while there is room. -/
theorem firstTaken_push (h : taken line = true)
    (entry : α → β) {limit : Nat} {out : List β} (hroom : out.length < limit)
    (rest : List α) :
    (out ++ [entry line]) ++
        (firstTaken taken (limit - (out ++ [entry line]).length) rest).map entry =
      out ++ (firstTaken taken (limit - out.length) (line :: rest)).map entry := by
  obtain ⟨room, hr⟩ : ∃ room, limit - out.length = room + 1 :=
    Nat.exists_eq_succ_of_ne_zero (by omega)
  have hless : limit - (out ++ [entry line]).length = room := by
    rw [List.length_append, List.length_singleton]
    omega
  rw [hr, hless, firstTaken_cons_pos h, List.map_cons, List.append_assoc]
  rfl

/-- Without room no line is recorded. -/
theorem firstTaken_full {limit : Nat} {out : List β} (h : ¬ out.length < limit)
    (taken : α → Bool) (entry : α → β) (lines : List α) :
    out ++ (firstTaken taken (limit - out.length) lines).map entry = out := by
  rw [show limit - out.length = 0 by omega, firstTaken, List.take_zero, List.map_nil,
    List.append_nil]

theorem firstTaken_map {γ : Type} (f : γ → α) (taken : α → Bool) (limit : Nat) (lines : List γ) :
    firstTaken taken limit (lines.map f) = (firstTaken (fun l => taken (f l)) limit lines).map f := by
  rw [firstTaken, firstTaken, List.filter_map, List.map_take]
  rfl

theorem taken_of_mem {P : α → Prop} [DecidablePred P] {limit : Nat} {lines : List α}
    (h : line ∈ firstTaken (fun l => P l) limit lines) : line ∈ lines ∧ P line := by
  obtain ⟨hmem, htaken⟩ := List.mem_filter.mp (List.mem_of_mem_take h)
  exact ⟨hmem, of_decide_eq_true htaken⟩

end Taken

/-- The lines that are not taken use up no capacity. -/
theorem diskLines_eq (lines : List Bytes) (out : List DiskCounter) :
    diskLines lines out =
      out ++ (firstTaken (fun line => DiskTaken line) (MAX_DISKS - out.length) lines).map diskEntry := by
  induction lines generalizing out with
  | nil => simp [diskLines, firstTaken]
  | cons line rest ih =>
    rw [diskLines]
    by_cases hroom : out.length < MAX_DISKS
    · rw [if_pos hroom, diskCounter_eq]
      by_cases htaken : DiskTaken line
      · simp only [if_pos htaken]
        rw [ih, firstTaken_push (α := Bytes) (decide_eq_true htaken) diskEntry hroom]
      · simp only [if_neg htaken]
        rw [ih, firstTaken_cons_neg (α := Bytes) (by simpa using htaken)]
    · rw [if_neg hroom, firstTaken_full hroom]

theorem netLines_eq (includeLoopback : Bool) (lineNo : Nat) (lines : List Bytes)
    (out : List NetCounter) :
    netLines includeLoopback lineNo lines out =
      out ++ (firstTaken (fun line => NetTaken includeLoopback line) (MAX_INTERFACES - out.length)
        (lines.drop (2 - lineNo))).map netEntry := by
  induction lines generalizing lineNo out with
  | nil => simp [netLines, firstTaken]
  | cons line rest ih =>
    rw [netLines]
    by_cases hroom : out.length < MAX_INTERFACES
    · rw [if_pos hroom]
      by_cases hheader : lineNo + 1 ≤ 2
      · obtain ⟨m, hm⟩ : ∃ m, 2 - lineNo = m + 1 := Nat.exists_eq_succ_of_ne_zero (by omega)
        rw [if_pos hheader, ih, hm, List.drop_succ_cons, show 2 - (lineNo + 1) = m by omega]
      · rw [if_neg hheader, netCounter_eq, show 2 - lineNo = 0 by omega, List.drop_zero]
        have hdrop : rest.drop (2 - (lineNo + 1)) = rest := by
          rw [show 2 - (lineNo + 1) = 0 by omega, List.drop_zero]
        by_cases htaken : NetTaken includeLoopback line
        · simp only [if_pos htaken]
          rw [ih, hdrop, firstTaken_push (α := Bytes) (decide_eq_true htaken) netEntry hroom]
        · simp only [if_neg htaken]
          rw [ih, hdrop, firstTaken_cons_neg (α := Bytes) (by simpa using htaken)]
    · rw [if_neg hroom, firstTaken_full hroom]

theorem diskReadSnapshot_items (text : Bytes) :
    ∃ snap, diskReadSnapshot (some text) = some snap ∧
      snap.items =
        (firstTaken (fun line => DiskTaken line) MAX_DISKS (fgetsAll 512 [] text)).map diskEntry :=
  ⟨_, rfl, diskLines_eq _ []⟩

theorem netReadSnapshot_items (text : Bytes) (includeLoopback : Bool) :
    ∃ snap, netReadSnapshot (some text) includeLoopback = some snap ∧
      snap.items = (firstTaken (fun line => NetTaken includeLoopback line) MAX_INTERFACES
        ((fgetsAll 512 [] text).drop 2)).map netEntry :=
  ⟨_, rfl, netLines_eq includeLoopback 0 _ []⟩

end Syswatch.CounterLines
