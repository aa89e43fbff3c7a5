import Mathlib.Data.List.Perm.Lattice
import Mathlib.Data.List.Flatten
import Mathlib.Tactic

/-! # Sending a request again

A sender transfers one request after the other and tries a transfer again that
fails. A failed transfer may have reached the receiver all the same: its request is
under way from then on and may be handled at any later time, or never. So the
receiver handles what was sent and nothing else, and a request at most once for each
of its transfers; it handles each exactly once, in order, when no request is late. -/

namespace Syswatch.Lib.Retransmission

variable {ρ η σ ω : Type*}

/-- The receiver, the requests of failed transfers, and those it has handled, each
with what the receiver's host supplied. -/
structure Network (ρ η σ : Type*) where
  receiver : σ
  underWay : List ρ
  handled : List (ρ × η)

def Network.start (receiver : σ) : Network ρ η σ := ⟨receiver, [], []⟩

/-- What happens during the transfers of a request. -/
inductive Wire (η : Type*) where
  | failed
  | answered (host : η)
  /-- The request at this place among those under way is handled after all. -/
  | arrives (i : Nat) (host : η)

/-- No request is late. -/
def Prompt (script : List (Wire η)) : Prop := ∀ w ∈ script, ∀ i host, w ≠ .arrives i host

/-- How a script ends with a receiver that says the same to each request; none is late. -/
def answers (reply : ω) : List (Wire η) → Option (List (Option ω))
  | [] => some []
  | .failed :: script => (answers reply script).map (none :: ·)
  | .answered _ :: script => (answers reply script).map (some reply :: ·)
  | .arrives _ _ :: _ => none

variable (serve : σ → ρ → η → ω × σ)

namespace Network

def handle (n : Network ρ η σ) (r : ρ) (host : η) : Network ρ η σ :=
  { n with receiver := (serve n.receiver r host).2, handled := n.handled ++ [(r, host)] }

def fail (n : Network ρ η σ) (r : ρ) : Network ρ η σ := { n with underWay := n.underWay ++ [r] }

def arrive (n : Network ρ η σ) (i : Nat) (host : η) : Option (Network ρ η σ) :=
  n.underWay[i]?.map fun r => handle serve { n with underWay := n.underWay.eraseIdx i } r host

/-- The transfers of a request, and what each is answered. -/
def transfer (r : ρ) : Network ρ η σ → List (Wire η) → Option (List (Option ω) × Network ρ η σ)
  | n, [] => some ([], n)
  | n, .failed :: script => (transfer r (n.fail r) script).map fun done => (none :: done.1, done.2)
  | n, .answered host :: script => (transfer r (n.handle serve r host) script).map fun done =>
      (some (serve n.receiver r host).1 :: done.1, done.2)
  | n, .arrives i host :: script => (n.arrive serve i host).bind fun n => transfer r n script

/-- Each request that was sent has been handled or is under way, and the receiver
has handled no others. -/
structure Accounts (start : σ) (sent : List ρ) (n : Network ρ η σ) : Prop where
  requests : (n.handled.map Prod.fst ++ n.underWay).Perm sent
  receiver : n.receiver = n.handled.foldl (fun s request => (serve s request.1 request.2).2) start

variable {serve} {start : σ} {sent : List ρ} {n n' : Network ρ η σ} {r : ρ} {script : List (Wire η)}
  {replies : List (Option ω)}

theorem accounts_start : Accounts serve start [] (.start start : Network ρ η σ) := ⟨.nil, rfl⟩

theorem Accounts.handle (h : Accounts serve start sent n) (r : ρ) (host : η) :
    Accounts serve start (sent ++ [r]) (n.handle serve r host) where
  requests := by
    simp only [Network.handle, List.map_append, List.map_singleton, List.append_assoc]
    have hmoved := (@List.perm_append_comm _ [r] n.underWay).append_left
      (n.handled.map Prod.fst)
    rw [← List.append_assoc _ n.underWay] at hmoved
    exact hmoved.trans (h.requests.append_right [r])
  receiver := by
    simp only [Network.handle, List.foldl_append, List.foldl_cons, List.foldl_nil, ← h.receiver]

theorem Accounts.fail (h : Accounts serve start sent n) (r : ρ) :
    Accounts serve start (sent ++ [r]) (n.fail r) where
  requests := by
    rw [Network.fail, ← List.append_assoc]
    exact h.requests.append_right [r]
  receiver := h.receiver

theorem Accounts.arrive (h : Accounts serve start sent n) {i : Nat} {host : η}
    (ha : n.arrive serve i host = some n') : Accounts serve start sent n' := by
  obtain ⟨r, hr, rfl⟩ := Option.map_eq_some_iff.mp ha
  obtain ⟨hi, rfl⟩ := List.getElem?_eq_some_iff.mp hr
  refine ⟨?_, ?_⟩
  · simp only [Network.handle, List.map_append, List.map_singleton, List.append_assoc]
    exact ((List.getElem_cons_eraseIdx_perm hi).append_left _).trans h.requests
  · simp only [Network.handle, List.foldl_append, List.foldl_cons, List.foldl_nil, ← h.receiver]

/-- A transfer sends its request once for each reply or failure. -/
theorem Accounts.transfer (h : Accounts serve start sent n)
    (ht : n.transfer serve r script = some (replies, n')) :
    Accounts serve start (sent ++ List.replicate replies.length r) n' := by
  induction script generalizing n sent replies with
  | nil =>
    cases ht
    simpa using h
  | cons w script ih =>
    cases w with
    | failed =>
      obtain ⟨done, hdone, he⟩ := Option.map_eq_some_iff.mp ht
      cases he
      simpa [List.replicate_succ] using ih (h.fail r) hdone
    | answered host =>
      obtain ⟨done, hdone, he⟩ := Option.map_eq_some_iff.mp ht
      cases he
      simpa [List.replicate_succ] using ih (h.handle r host) hdone
    | arrives i host =>
      obtain ⟨m, hm, ht⟩ := Option.bind_eq_some_iff.mp ht
      exact ih (h.arrive hm) ht

/-! ## What is handled stays handled -/

theorem arrive_handled {i : Nat} {host : η} (ha : n.arrive serve i host = some n') :
    n.handled <+: n'.handled := by
  obtain ⟨r, -, rfl⟩ := Option.map_eq_some_iff.mp ha
  exact List.prefix_append _ _

theorem transfer_handled (ht : n.transfer serve r script = some (replies, n')) :
    n.handled <+: n'.handled := by
  induction script generalizing n replies with
  | nil =>
    cases ht
    exact List.prefix_rfl
  | cons w script ih =>
    cases w with
    | failed =>
      obtain ⟨done, hdone, he⟩ := Option.map_eq_some_iff.mp ht
      cases he
      have hrest : (n.fail r).handled <+: done.2.handled := ih hdone
      exact hrest
    | answered host =>
      obtain ⟨done, hdone, he⟩ := Option.map_eq_some_iff.mp ht
      cases he
      exact (List.prefix_append _ _).trans (ih hdone)
    | arrives i host =>
      obtain ⟨m, hm, ht⟩ := Option.bind_eq_some_iff.mp ht
      exact (arrive_handled hm).trans (ih ht)

/-- A request that is answered has been handled. -/
theorem handled_of_reply (ht : n.transfer serve r script = some (replies, n')) {reply : ω}
    (hreply : some reply ∈ replies) : r ∈ n'.handled.map Prod.fst := by
  induction script generalizing n replies with
  | nil =>
    cases ht
    cases hreply
  | cons w script ih =>
    cases w with
    | failed =>
      obtain ⟨done, hdone, he⟩ := Option.map_eq_some_iff.mp ht
      cases he
      exact ih hdone ((List.mem_cons.mp hreply).resolve_left nofun)
    | answered host =>
      obtain ⟨done, hdone, he⟩ := Option.map_eq_some_iff.mp ht
      cases he
      refine List.mem_map.mpr ⟨(r, host), (transfer_handled hdone).subset ?_, rfl⟩
      exact List.mem_append_right _ (List.mem_singleton_self _)
    | arrives i host =>
      obtain ⟨m, hm, ht⟩ := Option.bind_eq_some_iff.mp ht
      exact ih ht hreply

/-- A reply is the receiver's. -/
theorem reply_served (ht : n.transfer serve r script = some (replies, n')) {reply : ω}
    (hreply : some reply ∈ replies) : ∃ s host, reply = (serve s r host).1 := by
  induction script generalizing n replies with
  | nil =>
    cases ht
    cases hreply
  | cons w script ih =>
    cases w with
    | failed =>
      obtain ⟨done, hdone, he⟩ := Option.map_eq_some_iff.mp ht
      cases he
      exact ih hdone ((List.mem_cons.mp hreply).resolve_left nofun)
    | answered host =>
      obtain ⟨done, hdone, he⟩ := Option.map_eq_some_iff.mp ht
      cases he
      rcases List.mem_cons.mp hreply with he | hreply
      · cases he
        exact ⟨_, host, rfl⟩
      · exact ih hdone hreply
    | arrives i host =>
      obtain ⟨m, hm, ht⟩ := Option.bind_eq_some_iff.mp ht
      exact ih ht hreply

/-- When nothing is late, a request is handled as often as it is answered. -/
theorem transfer_prompt (hp : Prompt script) (ht : n.transfer serve r script = some (replies, n')) :
    n'.handled.map Prod.fst =
      n.handled.map Prod.fst ++ List.replicate (replies.countP Option.isSome) r := by
  induction script generalizing n replies with
  | nil =>
    cases ht
    simp
  | cons w script ih =>
    have hrest : Prompt script := fun w hw => hp w (List.mem_cons_of_mem _ hw)
    cases w with
    | failed =>
      obtain ⟨done, hdone, he⟩ := Option.map_eq_some_iff.mp ht
      cases he
      simpa [fail] using ih hrest hdone
    | answered host =>
      obtain ⟨done, hdone, he⟩ := Option.map_eq_some_iff.mp ht
      cases he
      simpa [handle, List.replicate_succ] using ih hrest hdone
    | arrives i host => exact absurd rfl (hp _ List.mem_cons_self i host)

/-- A request that is always answered alike can be sent in any way. -/
theorem transfer_answers {reply : ω} (hserve : ∀ s host, (serve s r host).1 = reply)
    (h : answers reply script = some replies) (n : Network ρ η σ) :
    ∃ n', n.transfer serve r script = some (replies, n') ∧
      n'.handled.length = n.handled.length + replies.countP Option.isSome ∧
      n'.underWay.length = n.underWay.length + replies.countP Option.isNone := by
  induction script generalizing n replies with
  | nil =>
    cases h
    exact ⟨n, rfl, rfl, rfl⟩
  | cons w script ih =>
    cases w with
    | failed =>
      obtain ⟨rest, hrest, rfl⟩ := Option.map_eq_some_iff.mp h
      obtain ⟨n', htransfer, hhandled, hunderWay⟩ := ih hrest (n.fail r)
      refine ⟨n', by rw [transfer, htransfer]; rfl, ?_, ?_⟩
      · simpa [fail] using hhandled
      · simp [fail] at hunderWay
        simp [hunderWay]
        omega
    | answered host =>
      obtain ⟨rest, hrest, rfl⟩ := Option.map_eq_some_iff.mp h
      obtain ⟨n', htransfer, hhandled, hunderWay⟩ := ih hrest (n.handle serve r host)
      refine ⟨n', by rw [transfer, htransfer, hserve]; rfl, ?_, ?_⟩
      · simp [handle] at hhandled
        simp [hhandled]
        omega
      · simpa [handle] using hunderWay
    | arrives i host => cases h

end Network

end Syswatch.Lib.Retransmission
