import PeerDeploy.Common.Command
import Std.Data.ExtTreeMap

/-!
# Asking other peers for a blob

The client side of `crates/agent/src/p2p/storage.rs` and the waiters that the event loop
keeps (`crates/agent/src/p2p/mod.rs:666–685,905–915`). A request has a number, which stands
for its one-shot channel; an answer to a request whose client has given up is never read.
-/

namespace PeerDeploy.Storage

open PeerDeploy.Common

/-- Requests for blobs, waiters and answers. -/
structure Exchange where
  /-- The digest of each request ever made, by number. -/
  asked : List String := []
  /-- Requests that the event loop has yet to receive. -/
  queue : List Nat := []
  /-- `pending_storage`: who waits for a digest. -/
  pending : Std.ExtTreeMap String (List Nat) := ∅
  /-- What was sent to a request's channel. -/
  answers : Std.ExtTreeMap Nat (Option Bytes) := ∅

namespace Exchange

/-- Send a request; `crates/agent/src/p2p/storage.rs:19–22`. -/
def get (x : Exchange) (digest : String) : Exchange :=
  { x with asked := x.asked ++ [digest], queue := x.queue ++ [x.asked.length] }

/-- Send the same answer to some requests. -/
def answer (x : Exchange) (requests : List Nat) (bytes : Option Bytes) : Exchange :=
  { x with answers := requests.foldl (fun answers id ↦ answers.insert id bytes) x.answers }

/-- Let a request wait for its digest; `crates/agent/src/p2p/mod.rs:676–679`. -/
def await (x : Exchange) (digest : String) (request : Nat) : Exchange :=
  { x with pending := x.pending.insert digest (x.pending[digest]?.getD [] ++ [request]) }

/-- Wake up everybody who waits for the digest, with bytes that nobody has checked;
`crates/agent/src/p2p/mod.rs:905–915`. -/
def storageData (base64Decode : String → Except String Bytes) (x : Exchange)
    (digest bytesB64 : String) : Exchange :=
  match x.pending[digest]? with
  | none => x
  | some waiters =>
    let x := { x with pending := x.pending.erase digest }
    match base64Decode bytesB64 with
    | .ok bytes => x.answer waiters (some bytes)
    | .error _ => x.answer waiters none

/-- Requests, waiters and answers belong together. -/
structure Inv (x : Exchange) : Prop where
  queued : ∀ id ∈ x.queue, id < x.asked.length
  pending : ∀ (digest : String) (ids : List Nat) (id : Nat), x.pending[digest]? = some ids →
    id ∈ ids → x.asked[id]? = some digest
  answered : ∀ id : Nat, x.asked.length ≤ id → x.answers[id]? = none

private theorem getElem?_foldl_insert (requests : List Nat) (bytes : Option Bytes)
    (answers : Std.ExtTreeMap Nat (Option Bytes)) (id : Nat) :
    (requests.foldl (fun answers id ↦ answers.insert id bytes) answers)[id]? =
      if id ∈ requests then some bytes else answers[id]? := by
  induction requests generalizing answers with
  | nil => simp
  | cons first rest ih =>
    rw [List.foldl_cons, ih]
    by_cases hrest : id ∈ rest
    · simp [hrest]
    · by_cases hfirst : id = first
      · subst hfirst
        simp
      · have hne : first ≠ id := Ne.symm hfirst
        simp [hrest, hfirst, Std.ExtTreeMap.getElem?_insert, hne]

/-- The requests named get the answer, the others keep theirs. -/
theorem answers_answer (x : Exchange) (requests : List Nat) (bytes : Option Bytes) (id : Nat) :
    (x.answer requests bytes).answers[id]? =
      if id ∈ requests then some bytes else x.answers[id]? :=
  getElem?_foldl_insert requests bytes x.answers id

/-- A new request gets the next number. -/
theorem asked_get (x : Exchange) (digest : String) :
    (x.get digest).asked[x.asked.length]? = some digest := by
  simp [get]

/-- Earlier requests keep their digest. -/
theorem asked_get_of_some {x : Exchange} {id : Nat} {old : String} (h : x.asked[id]? = some old)
    (digest : String) : (x.get digest).asked[id]? = some old := by
  have hlt : id < x.asked.length := (List.getElem?_eq_some_iff.mp h).1
  change (x.asked ++ [digest])[id]? = some old
  rw [List.getElem?_append_left hlt]
  exact h

/-- A request keeps the invariant. -/
theorem inv_get {x : Exchange} (h : x.Inv) (digest : String) : (x.get digest).Inv where
  queued id hid := by
    have hlen : (x.get digest).asked.length = x.asked.length + 1 := by simp [get]
    rw [hlen]
    rcases List.mem_append.mp hid with hid | hid
    · have hlt := h.queued id hid
      omega
    · rw [List.mem_singleton.mp hid]
      omega
  pending d ids id hids hid := asked_get_of_some (h.pending d ids id hids hid) digest
  answered id hle := by
    have hlen : (x.get digest).asked.length = x.asked.length + 1 := by simp [get]
    rw [hlen] at hle
    exact h.answered id (by omega)

/-- Answers to requests that were made keep the invariant. -/
theorem inv_answer {x : Exchange} (h : x.Inv) {requests : List Nat}
    (hmade : ∀ id ∈ requests, id < x.asked.length) (bytes : Option Bytes) :
    (x.answer requests bytes).Inv where
  queued := h.queued
  pending := h.pending
  answered id hle := by
    rw [answers_answer]
    split
    · next hin =>
      have hlt := hmade id hin
      change x.asked.length ≤ id at hle
      omega
    · exact h.answered id hle

/-- A waiter for the digest that its request names keeps the invariant. -/
theorem inv_await {x : Exchange} (h : x.Inv) {digest : String} {request : Nat}
    (hasked : x.asked[request]? = some digest) : (x.await digest request).Inv where
  queued := h.queued
  pending d ids id hids hid := by
    change (x.pending.insert digest _)[d]? = some ids at hids
    rw [Std.ExtTreeMap.getElem?_insert] at hids
    split at hids
    · next heq =>
      have hd : digest = d := Std.LawfulEqCmp.eq_of_compare heq
      subst hd
      cases hids
      rcases List.mem_append.mp hid with hid | hid
      · cases hold : x.pending[digest]? with
        | none => simp [hold] at hid
        | some old =>
          rw [hold] at hid
          exact h.pending digest old id hold hid
      · rw [List.mem_singleton.mp hid]
        exact hasked
    · exact h.pending d ids id hids hid
  answered := h.answered

/-- The event loop drops a request from its queue. -/
theorem inv_dequeue {x : Exchange} (h : x.Inv) {request : Nat} {rest : List Nat}
    (hqueue : x.queue = request :: rest) : ({ x with queue := rest } : Exchange).Inv where
  queued id hid := h.queued id (by rw [hqueue]; exact List.mem_cons_of_mem _ hid)
  pending := h.pending
  answered := h.answered

/-- What arrives for a digest is sent to those who wait for it and to nobody else. -/
theorem answers_storageData {base64Decode : String → Except String Bytes} {x : Exchange}
    {digest bytesB64 : String} {id : Nat} {bytes : Bytes}
    (h : (x.storageData base64Decode digest bytesB64).answers[id]? = some (some bytes)) :
    x.answers[id]? = some (some bytes) ∨
      (base64Decode bytesB64 = .ok bytes ∧ ∃ ids, x.pending[digest]? = some ids ∧ id ∈ ids) := by
  unfold storageData at h
  split at h
  · exact .inl h
  · next waiters hwaiters =>
    simp only at h
    split at h
    · next found hfound =>
      rw [answers_answer] at h
      split at h
      · next hin =>
        cases h
        exact .inr ⟨hfound, waiters, hwaiters, hin⟩
      · exact .inl h
    · rw [answers_answer] at h
      split at h
      · cases h
      · exact .inl h

/-- What arrives keeps the invariant, and the requests as they are. -/
theorem inv_storageData {x : Exchange} (h : x.Inv)
    (base64Decode : String → Except String Bytes) (digest bytesB64 : String) :
    (x.storageData base64Decode digest bytesB64).Inv ∧
      (x.storageData base64Decode digest bytesB64).asked = x.asked := by
  unfold storageData
  split
  · exact ⟨h, rfl⟩
  · next waiters hwaiters =>
    have hmade : ∀ id ∈ waiters, id < x.asked.length := fun id hid ↦
      (List.getElem?_eq_some_iff.mp (h.pending digest waiters id hwaiters hid)).1
    have herase : ({ x with pending := x.pending.erase digest } : Exchange).Inv := by
      refine ⟨h.queued, ?_, h.answered⟩
      intro d ids id hids hid
      change (x.pending.erase digest)[d]? = some ids at hids
      rw [Std.ExtTreeMap.getElem?_erase] at hids
      split at hids
      · cases hids
      · exact h.pending d ids id hids hid
    simp only
    split
    · exact ⟨inv_answer herase hmade _, rfl⟩
    · exact ⟨inv_answer herase hmade _, rfl⟩

end Exchange

end PeerDeploy.Storage
