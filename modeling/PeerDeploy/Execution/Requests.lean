import PeerDeploy.Base.Table
import PeerDeploy.Execution.Agent

/-!
# No request is lost or answered twice

A storage request goes from the channel of the client to the waiters of its digest, or to its
answer (`crates/agent/src/p2p/storage.rs:19–27`, `crates/agent/src/p2p/mod.rs:666–685,905–915`).
The executors, the event loop and the peers may act in any order.
-/

namespace PeerDeploy.Storage.Exchange

open PeerDeploy.Common PeerDeploy.Base

/-- The requests that wait for a digest. -/
def waiters (x : Exchange) (digest : String) : List Nat := x.pending[digest]?.getD []

/-- How many times a request for the digest is kept: in the channel, among the waiters, or as
answered. -/
def places (x : Exchange) (digest : String) (id : Nat) : Nat :=
  x.queue.count id + (x.waiters digest).count id + if x.answers[id]?.isSome then 1 else 0

/-- Every request is kept once. -/
structure Once (x : Exchange) : Prop where
  inv : x.Inv
  placed : ∀ (id : Nat) digest, x.asked[id]? = some digest → x.places digest id = 1

/-- What the agent does with requests. -/
inductive Exchanges (base64Decode : String → Except String Bytes) (x : Exchange) : Exchange → Prop
  where
  | same : Exchanges base64Decode x x
  | asked (digest : String) : Exchanges base64Decode x (x.get digest)
  | served {id : Nat} {rest : List Nat} (queue : x.queue = id :: rest) (bytes : Option Bytes) :
    Exchanges base64Decode x (({ x with queue := rest } : Exchange).answer [id] bytes)
  | awaited {id : Nat} {rest : List Nat} {digest : String} (queue : x.queue = id :: rest)
    (asked : x.asked[id]? = some digest) :
    Exchanges base64Decode x (({ x with queue := rest } : Exchange).await digest id)
  | received (digest bytesB64 : String) :
    Exchanges base64Decode x (x.storageData base64Decode digest bytesB64)

section Places

variable {x : Exchange} {base64Decode : String → Except String Bytes} {id : Nat} {digest : String}

/-- An executor that waits for a digest has asked for it. -/
theorem mem_waiters (h : x.Inv) (hid : id ∈ x.waiters digest) : x.asked[id]? = some digest := by
  unfold waiters at hid
  cases hfound : x.pending[digest]? with
  | none => simp [hfound] at hid
  | some ids =>
    rw [hfound] at hid
    exact h.pending digest ids id hfound hid

private theorem places_of_queue (h : x.Once) {rest : List Nat} (hqueue : x.queue = id :: rest)
    (hasked : x.asked[id]? = some digest) :
    rest.count id = 0 ∧ (x.waiters digest).count id = 0 ∧ x.answers[id]? = none := by
  have hplaced := h.placed id digest hasked
  rw [places, hqueue, List.count_cons_self] at hplaced
  refine ⟨by omega, by omega, ?_⟩
  cases hanswer : x.answers[id]? with
  | none => rfl
  | some answer =>
    simp only [hanswer, Option.isSome_some, if_true] at hplaced
    omega

private theorem unanswered_of_waits (h : x.Once) (hid : id ∈ x.waiters digest) :
    x.queue.count id = 0 ∧ (x.waiters digest).count id = 1 ∧ x.answers[id]? = none := by
  have hplaced := h.placed id digest (mem_waiters h.inv hid)
  have hone := List.count_pos_iff.mpr hid
  unfold places at hplaced
  refine ⟨by omega, by omega, ?_⟩
  cases hanswer : x.answers[id]? with
  | none => rfl
  | some answer =>
    simp only [hanswer, Option.isSome_some, if_true] at hplaced
    omega

private theorem once_get (h : x.Once) (digest : String) : (x.get digest).Once where
  inv := inv_get h.inv digest
  placed id other hother := by
    change (x.asked ++ [digest])[id]? = some other at hother
    have hplaces : (x.get digest).places other id =
        x.places other id + [x.asked.length].count id := by
      change (x.queue ++ [x.asked.length]).count id + (x.waiters other).count id +
        (if x.answers[id]?.isSome then 1 else 0) = _
      rw [List.count_append, places]
      omega
    rw [hplaces]
    by_cases hold : id < x.asked.length
    · rw [List.getElem?_append_left hold] at hother
      rw [h.placed id other hother, List.count_singleton, if_neg (by simpa using Nat.ne_of_gt hold)]
    · -- The number is new: nobody has met it before.
      have hnew : id = x.asked.length := by
        have hlt := (List.getElem?_eq_some_iff.mp hother).1
        rw [List.length_append, List.length_singleton] at hlt
        omega
      have hqueue : x.queue.count id = 0 :=
        List.count_eq_zero_of_not_mem fun hin ↦ hold (h.inv.queued id hin)
      have hwaiters : (x.waiters other).count id = 0 := List.count_eq_zero_of_not_mem fun hin ↦
        hold (List.getElem?_eq_some_iff.mp (mem_waiters h.inv hin)).1
      have hanswers := h.inv.answered id (Nat.le_of_eq hnew.symm)
      rw [places, hqueue, hwaiters, hanswers, hnew, List.count_singleton_self]
      rfl

private theorem once_served (h : x.Once) {rest : List Nat} (hqueue : x.queue = id :: rest)
    (bytes : Option Bytes) : (({ x with queue := rest } : Exchange).answer [id] bytes).Once where
  inv := by
    apply inv_answer (inv_dequeue h.inv hqueue)
    intro other hother
    rw [List.mem_singleton.mp hother]
    exact h.inv.queued id (by rw [hqueue]; exact List.mem_cons_self)
  placed other digest hasked := by
    have hplaced := h.placed other digest hasked
    simp only [places, answers_answer, List.mem_singleton]
    change rest.count other + (x.waiters digest).count other + _ = 1
    by_cases hsame : other = id
    · subst hsame
      obtain ⟨hrest, hwaits, -⟩ := places_of_queue h hqueue hasked
      simp [hrest, hwaits]
    · rw [places, hqueue, List.count_cons_of_ne (Ne.symm hsame)] at hplaced
      rw [if_neg hsame]
      exact hplaced

private theorem once_awaited (h : x.Once) {rest : List Nat} (hqueue : x.queue = id :: rest)
    (hasked : x.asked[id]? = some digest) :
    (({ x with queue := rest } : Exchange).await digest id).Once where
  inv := inv_await (inv_dequeue h.inv hqueue) hasked
  placed other wanted hwanted := by
    change x.asked[other]? = some wanted at hwanted
    have hplaced := h.placed other wanted hwanted
    have hwaiters : (({ x with queue := rest } : Exchange).await digest id).waiters wanted =
        if digest = wanted then x.waiters digest ++ [id] else x.waiters wanted := by
      simp only [waiters, await, Table.getElem?_insert]
      split <;> rfl
    simp only [places, hwaiters]
    change rest.count other + _ + (if x.answers[other]?.isSome then 1 else 0) = 1
    by_cases hsame : other = id
    · subst hsame
      obtain ⟨hrest, hwaits, hanswer⟩ := places_of_queue h hqueue hasked
      rw [hasked] at hwanted
      cases hwanted
      rw [if_pos rfl, List.count_append, hrest, hwaits, hanswer]
      simp
    · have hcount : (if digest = wanted then x.waiters digest ++ [id]
          else x.waiters wanted).count other = (x.waiters wanted).count other := by
        split
        · next heq =>
          subst heq
          rw [List.count_append, List.count_singleton, if_neg (by simpa using Ne.symm hsame)]
          exact Nat.add_zero _
        · rfl
      rw [places, hqueue, List.count_cons_of_ne (Ne.symm hsame)] at hplaced
      rw [hcount]
      exact hplaced

/-- What a message for a digest does: those who wait for it get the same answer. -/
theorem storageData_eq (base64Decode : String → Except String Bytes) (x : Exchange)
    (digest bytesB64 : String) (hsome : x.pending[digest]?.isSome) :
    x.storageData base64Decode digest bytesB64 =
      ({ x with pending := x.pending.erase digest } : Exchange).answer (x.waiters digest)
        (base64Decode bytesB64).toOption := by
  obtain ⟨ids, hids⟩ := Option.isSome_iff_exists.mp hsome
  simp only [storageData, waiters, hids, Option.getD_some]
  split
  · next bytes hbytes => rw [hbytes]; rfl
  · next error herror => rw [herror]; rfl

private theorem once_received (h : x.Once) (digest bytesB64 : String) :
    (x.storageData base64Decode digest bytesB64).Once where
  inv := (inv_storageData h.inv base64Decode digest bytesB64).1
  placed id wanted hwanted := by
    rw [(inv_storageData h.inv base64Decode digest bytesB64).2] at hwanted
    have hplaced := h.placed id wanted hwanted
    by_cases hsome : x.pending[digest]?.isSome
    · rw [storageData_eq _ _ _ _ hsome]
      simp only [places, answers_answer]
      change x.queue.count id + ((x.pending.erase digest)[wanted]?.getD []).count id + _ = 1
      rw [Table.getElem?_erase]
      by_cases hwaits : id ∈ x.waiters digest
      · have hdigest := mem_waiters h.inv hwaits
        rw [hwanted] at hdigest
        cases hdigest
        simp [hwaits, (unanswered_of_waits h hwaits).1]
      · rw [if_neg hwaits]
        by_cases hsame : digest = wanted
        · subst hsame
          rw [places, List.count_eq_zero_of_not_mem hwaits] at hplaced
          simpa using hplaced
        · rw [if_neg hsame]
          exact hplaced
    · rw [Option.not_isSome_iff_eq_none] at hsome
      simp only [storageData, hsome]
      exact hplaced

/-- Every request stays in one place. -/
theorem once_of_exchanges {y : Exchange} (h : x.Once) (hmoves : Exchanges base64Decode x y) :
    y.Once := by
  cases hmoves with
  | same => exact h
  | asked digest => exact once_get h digest
  | served hqueue bytes => exact once_served h hqueue bytes
  | awaited hqueue hasked => exact once_awaited h hqueue hasked
  | received digest bytesB64 => exact once_received h digest bytesB64

/-- An answer is final. -/
theorem answers_of_exchanges {y : Exchange} (h : x.Once) (hmoves : Exchanges base64Decode x y)
    {answer : Option Bytes} (hanswer : x.answers[id]? = some answer) :
    y.answers[id]? = some answer := by
  cases hmoves with
  | same => exact hanswer
  | asked digest => exact hanswer
  | @served first rest hqueue bytes =>
    rw [answers_answer, if_neg]
    · exact hanswer
    · rw [List.mem_singleton]
      rintro rfl
      have hqueued := h.inv.queued id (by rw [hqueue]; exact List.mem_cons_self)
      have hasked : x.asked[id]? = some x.asked[id] := List.getElem?_eq_getElem hqueued
      rw [(places_of_queue h hqueue hasked).2.2] at hanswer
      cases hanswer
  | awaited hqueue hasked => exact hanswer
  | received digest bytesB64 =>
    by_cases hsome : x.pending[digest]?.isSome
    · rw [storageData_eq _ _ _ _ hsome, answers_answer, if_neg]
      · exact hanswer
      · intro hwaits
        rw [(unanswered_of_waits h hwaits).2.2] at hanswer
        cases hanswer
    · rw [Option.not_isSome_iff_eq_none] at hsome
      simp only [storageData, hsome]
      exact hanswer

/-- A message for a digest answers all who wait for it. -/
theorem answers_of_waits (hid : id ∈ x.waiters digest) (bytesB64 : String) :
    (x.storageData base64Decode digest bytesB64).answers[id]? =
      some (base64Decode bytesB64).toOption := by
  have hsome : x.pending[digest]?.isSome := by
    unfold waiters at hid
    cases hfound : x.pending[digest]? with
    | none => simp [hfound] at hid
    | some ids => rfl
  rw [storageData_eq _ _ _ _ hsome, answers_answer, if_pos hid]

end Places

end PeerDeploy.Storage.Exchange

namespace PeerDeploy.Execution

open PeerDeploy.Common PeerDeploy.Base PeerDeploy.Storage

private theorem exchanges_settle {h : Host} {a : Agent} {k : Nat} {task : ExecTask}
    {out : Outcome} :
    Exchange.Exchanges h.base64Decode a.exchange (a.settle k task out).exchange := by
  unfold Agent.settle
  cases out.ask with
  | none => exact .same
  | some digest => exact .asked digest

/-- What a step of an agent does with the requests. -/
theorem exchanges_of_step {h : Host} {a d : Agent} {event : Event}
    (hstep : step h a event = some d) :
    Exchange.Exchanges h.base64Decode a.exchange d.exchange := by
  unfold step at hstep
  split at hstep
  · cases hstep
  · cases event with
    | execute job storage =>
      cases hstep
      exact .same
    | advance k input =>
      obtain ⟨task, -, hstep⟩ := Option.bind_eq_some_iff.mp hstep
      obtain ⟨out, -, rfl⟩ := Option.map_eq_some_iff.mp hstep
      exact exchanges_settle
    | timeout k =>
      obtain ⟨task, -, hstep⟩ := Option.bind_eq_some_iff.mp hstep
      obtain ⟨out, -, rfl⟩ := Option.map_eq_some_iff.mp hstep
      exact exchanges_settle
    | storageRequest input =>
      simp only [Agent.storageRequest] at hstep
      split at hstep
      · cases hstep
      · next id rest hqueue =>
        obtain ⟨digest, hasked, hstep⟩ := Option.bind_eq_some_iff.mp hstep
        split at hstep
        · cases hstep
          exact .same
        · cases hstep
          exact .served hqueue _
        · cases hstep
          exact .awaited hqueue hasked
    | storageData digest bytesB64 =>
      cases hstep
      exact .received digest bytesB64
    | storagePut digest bytesB64 input =>
      cases hstep
      simp only [Agent.storagePut]
      split
      · exact .same
      · split
        · split
          · exact .same
          · exact .same
        · exact .same

/-- The requests of an agent: each one is in the channel, waits for its digest or is answered, once
and for no other digest, and a message for its digest answers it if it waits. -/
structure RequestsKept (h : Host) (a : Agent) : Prop where
  placed : ∀ (id : Nat) digest, a.exchange.asked[id]? = some digest →
    a.exchange.places digest id = 1
  waits : ∀ (id : Nat) digest, id ∈ a.exchange.waiters digest →
    a.exchange.asked[id]? = some digest ∧
      ∀ bytesB64, (a.exchange.storageData h.base64Decode digest bytesB64).answers[id]? =
        some (h.base64Decode bytesB64).toOption

/-- The answers that an agent has given stay. -/
def AnswersKept (a d : Agent) : Prop :=
  ∀ (id : Nat) answer, a.exchange.answers[id]? = some answer → d.exchange.answers[id]? = some answer

private def OnceEach (a : Agent) : Prop := a.exchange.Once

/-- In every run of an agent no request is lost, none is answered twice, and no answer is taken
back. -/
theorem requests_kept (h : Host) (events : List Event) :
    Throughout (step h) (RequestsKept h) {} events ∧ Along (step h) AnswersKept {} events := by
  have honce : ∀ a event d, OnceEach a → True → step h a event = some d → OnceEach d :=
    fun a event d ha _ hstep ↦ Exchange.once_of_exchanges ha (exchanges_of_step hstep)
  have hempty : OnceEach {} :=
    { inv := { queued := fun _ hin ↦ (List.not_mem_nil hin).elim
               pending := fun digest ids id hids ↦ by simp at hids
               answered := fun id _ ↦ by simp }
      placed := fun id digest hasked ↦ by simp at hasked }
  have htrue : StepsMeet (step h) (fun _ _ ↦ True) {} events := stepsMeet_true ({} : Agent) events
  constructor
  · have hkept : ∀ a, OnceEach a → RequestsKept h a := fun a ha ↦
      { placed := ha.placed
        waits := fun id digest hid ↦
          ⟨Exchange.mem_waiters ha.inv hid, Exchange.answers_of_waits hid⟩ }
    exact throughout_of_invariant honce hkept hempty htrue
  · rw [along_iff (fun _ _ _ hanswer ↦ hanswer)
      fun _ _ _ hfirst hsecond id answer hanswer ↦ hsecond id answer (hfirst id answer hanswer)]
    have hleads : ∀ a event, OnceEach a → True → Leads (step h) AnswersKept a event :=
      fun a event ha _ d hstep id answer ↦
        Exchange.answers_of_exchanges ha (exchanges_of_step hstep)
    exact stepsMeet_of_invariant honce hleads hempty htrue

end PeerDeploy.Execution
