import Syswatch.Lib.PyBytes
import Syswatch.OutputRetries
import Syswatch.WebHandler

/-! # A batch from the sender to the store

`http_post_batch` puts the buffered events between brackets by hand. The web UI
reads that text with a JSON reader, keeps the elements that are objects and
stores them, unless the reader comes to a limit of the interpreter. -/

namespace Syswatch.BatchBody
open Lib CText Unicode PyJson PyLimits OutputMemory OutputRefinement OutputRetries WebHandler

/-- A complete JSON object in UTF-8. -/
def JsonObject (e : Bytes) (members : List (PyStr × PyValue)) : Prop :=
  ∃ text, utf8Decode e = some text ∧ decodeText text = some (.dict members)

variable {m : OutputMemory} {items : List Bytes} {values : List (List (PyStr × PyValue))}

/-- The texts of the objects. -/
theorem texts_of_objects (h : List.Forall₂ JsonObject items values) : ∃ texts,
    List.Forall₂ (fun e text => utf8Decode e = some text) items texts ∧
      List.Forall₂ (fun text v => decodeText text = some v) texts (values.map .dict) := by
  induction h with
  | nil => exact ⟨[], .nil, .nil⟩
  | cons hobject _ ih =>
    obtain ⟨text, hutf8, hdecode⟩ := hobject
    obtain ⟨texts, hutf8s, hdecodes⟩ := ih
    exact ⟨text :: texts, .cons hutf8 hutf8s, .cons hdecode hdecodes⟩

theorem utf8Decode_postBody {texts : List Text}
    (h : List.Forall₂ (fun e text => utf8Decode e = some text) items texts) :
    utf8Decode (postBody items) = some (91 :: (List.intercalate [44] texts ++ [93])) := by
  have hcomma : utf8Decode [44] = some [44] := by decide
  have hopen : utf8Decode [91] = some [91] := by decide
  have hclose : utf8Decode [93] = some [93] := by decide
  exact utf8Decode_append hopen (utf8Decode_append (utf8Decode_intercalate hcomma h) hclose)

theorem postBody_noNul (h : Holds m items) : (0 : UInt8) ∉ postBody items := by
  obtain ⟨body, -, hstring⟩ := h.assembleBody (Nat.lt_succ_self _) (.zero _)
  exact (Buffer.string?_iff.mp hstring).1

theorem postBody_length_le (items : List Bytes) : (postBody items).length ≤ bodySize items := by
  have hlast : postBody items = bodySoFar items items.length ++ [93] := by
    rw [bodySoFar, if_neg (Nat.lt_irrefl _)]
    rfl
  rw [hlast, List.length_append]
  exact bodySoFar_length items.length

theorem loads_postBody (h0 : (0 : UInt8) ∉ postBody items) (hne : items ≠ [])
    (hobjects : List.Forall₂ JsonObject items values) :
    loads (postBody items) = .value (.list (values.map .dict)) := by
  obtain ⟨texts, hutf8, hdecode⟩ := texts_of_objects hobjects
  have htexts : texts ≠ [] := by
    rintro rfl
    cases hutf8
    exact hne rfl
  rw [loads, detectEncoding_cstring h0 (fun a ha => by cases ha; decide), decode, utf8Decode_postBody hutf8]
  dsimp only
  rw [decodeText_array htexts hdecode]

/-- Every element of an array of objects is stored. -/
theorem receive_objects (objects : PyObjects PyValue) (host : Host) (store : EventStore PyValue)
    {body : Bytes} (hvalues : values ≠ []) (hloads : host.limits.loads body = .ok (.list (values.map .dict))) :
    receive objects host store body = sendJson (store.ingest objects host.now (values.map pyDict)) .ok
      [(py "ok", .bool true), (py "accepted", .int values.length)] := by
  have hevents : payloadEvents (.list (values.map .dict)) = some (values.map pyDict) := by
    rw [payloadEvents, List.filterMap_map]
    exact congrArg some (List.filterMap_eq_map ▸ rfl)
  rw [receive, hloads]
  dsimp only
  rw [hevents]
  obtain ⟨v, values, rfl⟩ := List.exists_cons_of_ne_nil hvalues
  simp

/-- What `http_post_batch` has curl send. -/
theorem posted_body (h : Holds m items) {env : PostCall} {code : Int} {actions : List Action}
    {m' : OutputMemory} (hcall : m.httpPostBatch env = some (code, actions, m')) :
    ∀ r ∈ OutputRetries.postsOf actions, r.body = postBody items := by
  by_cases hne : items = []
  · subst hne
    rw [OutputMemory.httpPostBatch, if_pos (show m.batchCount = 0 from h.count)] at hcall
    cases hcall
    simp [OutputRetries.postsOf]
  by_cases henv : env.malloc (bodySize items + 1) = none ∨ env.curlInit = false
  · rw [h.httpPostBatch_starved hne henv] at hcall
    cases hcall
    simp [OutputRetries.postsOf]
  · rw [not_or, Bool.not_eq_false] at henv
    obtain ⟨memory, hmalloc⟩ := Option.ne_none_iff_exists'.mp henv.1
    obtain ⟨said, m', hsaid, -, -, hrun⟩ := h.httpPostBatch_supplied hne hmalloc henv.2
    rw [hrun] at hcall
    cases hcall
    rw [postsOf_append, (said_silent hsaid).1, List.append_nil, (attemptActions_projections _ _).1]
    intro r hr
    rw [List.eq_of_mem_replicate hr]
    rfl

/-- **A batch arrives whole.** Its body fits the memory that is asked for, is the
array of the buffered objects, and within the limits it is answered with their number
when they have been stored in order. -/
theorem batch_body_accepted (objects : PyObjects PyValue) (host : Host) (store : EventStore PyValue)
    (h : Holds m items) (hne : items ≠ []) (hobjects : List.Forall₂ JsonObject items values) :
    (∃ bodyLen, m.bodyLength = some bodyLen ∧ ∀ memory : Buffer (bodyLen + 1), ∃ body,
      m.assembleBody memory = some body ∧
      body.string? = some (ascii "[" ++ List.intercalate (ascii ",") items ++ ascii "]")) ∧
    (∀ env code actions m', m.httpPostBatch env = some (code, actions, m') →
      ∀ r ∈ OutputRetries.postsOf actions, r.body = postBody items) ∧
    loads (postBody items) = .value (.list (values.map .dict)) ∧
    (host.limits.Admits (.list (values.map .dict)) → ∀ request length rest, request.path = py "/events" →
      request.contentLength = some length → pyInt host.limits length = some ((postBody items).length : Int) →
      request.rfile = postBody items ++ rest → ∃ store', doPost objects host store request =
          ⟨[⟨.ok, [(py "ok", .bool true), (py "accepted", .int m.batchCount)]⟩], store'⟩ ∧
        Extended objects host store store' values) := by
  have hloads := loads_postBody (postBody_noNul h) hne hobjects
  have hlen := hobjects.length_eq
  have hvalues : values ≠ [] := by
    rintro rfl
    exact hne (List.length_eq_zero_iff.mp hlen)
  refine ⟨⟨bodySize items, h.bodyLength, fun memory => ?_⟩, fun env code actions m' hcall =>
    posted_body h hcall, hloads, fun hadmits request length rest hpath hlength hmatch hread => ?_⟩
  · exact h.assembleBody (Nat.lt_succ_self _) memory
  · rw [doPost_events store hpath hlength hmatch (by simp [postBody]) hread,
      receive_objects objects host store hvalues (Limits.loads_eq_ok.mpr ⟨hloads, hadmits⟩), h.count, hlen]
    exact ⟨_, rfl, .of_ingest store values⟩

/-- An object with one number is recognised by its only member. -/
theorem jsonObject_of_member {e : Bytes} {t key : Text} {n : Int} (hutf8 : utf8Decode e = some t)
    (h : (match decodeText t with
      | some (.dict [(k, .int i)]) => decide (k = key ∧ i = n)
      | _ => false) = true) : JsonObject e [(key, .int n)] := by
  refine ⟨t, hutf8, ?_⟩
  split at h
  · next k i hdecode =>
    obtain ⟨rfl, rfl⟩ := of_decide_eq_true h
    exact hdecode
  · cases h

/-- Two objects are buffered. -/
def sampleBatch : OutputMemory :=
  { fresh (OutputDelivery.httpStart Bytes OutputDelivery.httpConfig) with
    batchItems := some ([some (ascii "\x7b\"seq\":1\x7d"), some (ascii "\x7b\"seq\": 2\x7d")] ++
      List.replicate 14 none)
    batchCount := 2 }

theorem batch_body_accepted_example : ∃ store',
    doPost sampleObjects sampleHost (.new 100 0)
        (eventsRequest "22" (postBody [ascii "\x7b\"seq\":1\x7d", ascii "\x7b\"seq\": 2\x7d"])) =
      ⟨[⟨.ok, [(py "ok", .bool true), (py "accepted", .int 2)]⟩], store'⟩ ∧
    Extended sampleObjects sampleHost (.new 100 0) store' [[(py "seq", .int 1)], [(py "seq", .int 2)]] := by
  have hshort : ∀ n < 10, Short 4300 n := fun n hn => short_of_lt (k := 1) hn (by decide)
  exact (@batch_body_accepted sampleBatch _ [[(py "seq", .int 1)], [(py "seq", .int 2)]] sampleObjects
    sampleHost (.new 100 0) ⟨rfl, rfl, by decide +kernel, by decide +kernel⟩ (by decide)
    (.cons (jsonObject_of_member (t := py "\x7b\"seq\":1\x7d") (by decide +kernel) (by decide +kernel))
      (.cons (jsonObject_of_member (t := py "\x7b\"seq\": 2\x7d") (by decide +kernel)
        (by decide +kernel)) .nil))).2.2.2
    ⟨by decide, ⟨by decide, hshort 1 (by decide), trivial⟩, ⟨by decide, hshort 2 (by decide), trivial⟩, trivial⟩
    _ _ [] rfl rfl (by decide) (List.append_nil _).symm

/-! ## A number that is too long -/

def numbered (n : Nat) : Bytes := ascii "\x7b\"n\":" ++ (decimal n ++ ascii "\x7d")

theorem numbered_object (n : Nat) : JsonObject (numbered n) [(py "n", .int n)] := by
  have hspells := @PyBytes.spells_object [(ascii "n", decimal n, .int n)]
    (List.forall_mem_singleton.mpr ⟨show PyBytes.PlainKey (ascii "n") by decide, PyBytes.spells_decimal n⟩)
  have htext : numbered n = 123 :: (List.intercalate [44] [JsonText.member (ascii "n") (decimal n)] ++ [125]) := by
    simp [numbered, JsonText.member, ascii]
  rw [JsonObject, htext]
  exact hspells.decoded

/-- An object without members, and one with a number. -/
def numberBatch (n : Nat) : OutputMemory :=
  { sampleBatch with
    batchItems := some ([some (ascii "\x7b\x7d"), some (numbered n)] ++ List.replicate 14 none) }

theorem numberBatch_holds (n : Nat) : Holds (numberBatch n) [ascii "\x7b\x7d", numbered n] where
  count := rfl
  slots := rfl
  room := show 2 ≤ sampleBatch.batchCapacity by decide
  strings := by
    simp only [List.forall_mem_cons, numbered, List.mem_append, not_or]
    exact ⟨by decide, ⟨by decide, fun h0 => absurd (isDigit_of_mem_decimal h0) (by decide), by decide⟩,
      List.forall_mem_nil _⟩

theorem numberBatch_length (k : Nat) : (postBody [ascii "\x7b\x7d", numbered (10 ^ k)]).length = k + 12 := by
  have hle := (decimal_length_le_iff (Nat.succ_pos k)).mpr (Nat.pow_lt_pow_right (by decide) (Nat.lt_succ_self k))
  have hgt : ¬(decimal (10 ^ k)).length ≤ k := by
    intro hk
    rcases Nat.eq_zero_or_pos k with rfl | hpos
    · exact decimal_ne_nil _ (List.length_eq_zero_iff.mp (Nat.le_zero.mp hk))
    · exact lt_irrefl _ ((decimal_length_le_iff hpos).mp hk)
  simp only [postBody, numbered, List.intercalate, List.length_append, List.length_cons]
  simp [ascii]
  omega

/-- An object without members, and one with a number of a digit too many. -/
def longItems (limits : Limits) : List Bytes := [ascii "\x7b\x7d", numbered (10 ^ limits.maxStrDigits)]

def longValues (limits : Limits) : List (List (PyStr × PyValue)) :=
  [[], [(py "n", .int (10 ^ limits.maxStrDigits : Nat))]]

theorem longItems_objects (limits : Limits) : List.Forall₂ JsonObject (longItems limits) (longValues limits) :=
  .cons ⟨py "\x7b\x7d", rfl, rfl⟩ (.cons (numbered_object _) .nil)

theorem longItems_unanswered {host : Host} (hdigits : host.limits.maxStrDigits ≠ 0) {length : String}
    (hlength : pyInt host.limits (py length) = some ((postBody (longItems host.limits)).length : Int)) :
    doPost sampleObjects host (.new 100 0) (eventsRequest length (postBody (longItems host.limits))) =
      ⟨[], .new 100 0⟩ := by
  have hlong : ¬host.limits.Admits (.list ((longValues host.limits).map .dict)) := by
    intro ⟨_, _, ⟨_, hshort, _⟩, _⟩
    exact hshort.elim hdigits (lt_irrefl _)
  have hloads := loads_postBody (postBody_noNul (numberBatch_holds _)) (List.cons_ne_nil _ _)
    (longItems_objects host.limits)
  -- the reader comes to the number before the array is closed
  obtain ⟨e, he, hne⟩ := Limits.loads_beyond hloads hlong
  change host.limits.loads (postBody (longItems host.limits)) = .error e at he
  rw [doPost_events _ rfl rfl hlength (List.cons_ne_nil _ _) (List.append_nil _).symm, receive, he]
  cases e with
  | jsonDecodeError => exact absurd rfl hne
  | unicodeDecodeError | valueError | recursionError => rfl

/-- **A number that is too long**: two complete objects are posted, and `do_POST` sends
no response and stores none of them. -/
theorem long_number_unanswered :
    Holds (numberBatch (10 ^ sampleLimits.maxStrDigits)) (longItems sampleLimits) ∧
      List.Forall₂ JsonObject (longItems sampleLimits) (longValues sampleLimits) ∧
      pyInt sampleLimits (py "4312") = some ((postBody (longItems sampleLimits)).length : Int) ∧
      doPost sampleObjects sampleHost (.new 100 0) (eventsRequest "4312" (postBody (longItems sampleLimits))) =
        ⟨[], .new 100 0⟩ := by
  have hlength : pyInt sampleLimits (py "4312") = some ((postBody (longItems sampleLimits)).length : Int) := by
    rw [longItems, numberBatch_length]
    decide
  exact ⟨numberBatch_holds _, longItems_objects sampleLimits, hlength,
    @longItems_unanswered sampleHost (by decide) _ hlength⟩

end Syswatch.BatchBody
