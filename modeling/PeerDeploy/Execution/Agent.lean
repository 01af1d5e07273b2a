import PeerDeploy.Base.Transition
import PeerDeploy.Execution.Task

/-!
# An agent that executes jobs and exchanges blobs

The executors run as tasks beside the event loop, which serves their storage requests and
receives blobs from other peers (`crates/agent/src/p2p/mod.rs:666–685,905–931`). One turn of
the event loop is one step. What the programs do once they run is not followed, nor is the
staging of the artifacts that they leave; both could write over a blob.
-/

namespace PeerDeploy.Execution

open PeerDeploy.Common PeerDeploy.Base PeerDeploy.Storage

/-- An agent. Its files change by the agent's own steps only, not by programs or by the staging
of artifacts. -/
structure Agent where
  store : Store := {}
  exchange : Exchange := {}
  tasks : List ExecTask := []
  /-- The event loop has panicked, and the agent is gone. -/
  crashed : Bool := false
  /-- The attachments written so far, each with the index of its executor. No step reads it. -/
  staged : List (Nat × StagedFile) := []

/-- What can happen on an agent. -/
inductive Event where
  | execute (job : JobSpec) (storage : Bool)
  /-- The `k`-th executor runs to its next suspension. -/
  | advance (k : Nat) (input : ExecInput)
  /-- The request of the `k`-th executor has waited for five seconds. -/
  | timeout (k : Nat)
  /-- The event loop receives the next storage request. -/
  | storageRequest (input : ExecInput)
  | storageData (digest bytesB64 : String)
  | storagePut (digest bytesB64 : String) (input : StoreInput)

/-- The number of the request that an executor waits for. -/
def ExecTask.request (task : ExecTask) : Option Nat :=
  match task.pc with
  | .askProgram id _ => some id
  | .askItem _ _ _ id _ => some id
  | _ => none

namespace Agent

/-- Put an executor back after its step. -/
def settle (a : Agent) (k : Nat) (task : ExecTask) (out : Outcome) : Agent :=
  { a with
    store := out.store
    exchange := match out.ask with
      | some digest => a.exchange.get digest
      | none => a.exchange
    tasks := a.tasks.set k { task with pc := out.pc }
    staged := a.staged ++ (out.wrote.map fun file ↦ (k, file)).toList }

/-- The next step of an executor; one with an open request needs its answer. -/
def outcome (h : Host) (a : Agent) (task : ExecTask) (input : ExecInput) : Option Outcome :=
  match task.request with
  | some id => (a.exchange.answers[id]?).bind fun answer ↦ task.answered h a.store answer input
  | none => task.advance h a.store a.exchange.asked.length input

/-- The `k`-th executor runs to its next suspension. -/
def advance (h : Host) (a : Agent) (k : Nat) (input : ExecInput) : Option Agent :=
  (a.tasks[k]?).bind fun task ↦ (a.outcome h task input).map (a.settle k task)

/-- The client gives up; `crates/agent/src/p2p/storage.rs:23–26`. -/
def timeout (h : Host) (a : Agent) (k : Nat) : Option Agent :=
  (a.tasks[k]?).bind fun task ↦ (task.answered h a.store none {}).map (a.settle k task)

/-- Serve a request from the content store or let it wait;
`crates/agent/src/p2p/mod.rs:666–685`. -/
def storageRequest (h : Host) (a : Agent) (input : ExecInput) : Option Agent :=
  match a.exchange.queue with
  | [] => none
  | id :: rest => do
    let digest ← a.exchange.asked[id]?
    let exchange := { a.exchange with queue := rest }
    let base := baseDir h.dataDir
    match (a.store.opened base).getPath base digest input.store with
    | none => return { a with crashed := true }
    | some (store, some path) =>
      let bytes := (store.files.read (Path.place path) input.readError).toOption
      return { a with store, exchange := exchange.answer [id] bytes }
    | some (store, none) => return { a with store, exchange := exchange.await digest id }

/-- Store bytes that have the digest they come under;
`crates/agent/src/p2p/mod.rs:916–931`. -/
def storagePut (h : Host) (a : Agent) (digest bytesB64 : String) (input : StoreInput) : Agent :=
  match h.base64Decode bytesB64 with
  | .error _ => a
  | .ok bytes =>
    if h.sha256Hex bytes = digest then
      let base := baseDir h.dataDir
      match (a.store.opened base).putBytes h.sha256Hex base bytes input with
      | none => { a with crashed := true }
      | some (store, _) => { a with store }
    else a

end Agent

/-- One event on an agent. -/
def step (h : Host) (a : Agent) (event : Event) : Option Agent :=
  if a.crashed then none
  else match event with
    | .execute job storage => some { a with tasks := a.tasks ++ [{ job, storage }] }
    | .advance k input => a.advance h k input
    | .timeout k => a.timeout h k
    | .storageRequest input => a.storageRequest h input
    | .storageData digest bytesB64 =>
      some { a with exchange := a.exchange.storageData h.base64Decode digest bytesB64 }
    | .storagePut digest bytesB64 input => some (a.storagePut h digest bytesB64 input)

/-! ### What a step can do -/

/-- The steps of an agent, one case for each kind. -/
inductive Moves (h : Host) (a : Agent) : Event → Agent → Prop where
  | spawned {job : JobSpec} {storage : Bool} :
    Moves h a (.execute job storage) { a with tasks := a.tasks ++ [{ job, storage }] }
  | moved {event : Event} {k : Nat} {task : ExecTask} {out : Outcome}
    (hevent : event = .timeout k ∨ ∃ input, event = .advance k input)
    (htask : a.tasks[k]? = some task) (hpc : task.pc.finished = false)
    (hmoves : ExecMoves h a.store task a.exchange.asked.length out) :
    Moves h a event (a.settle k task out)
  | delivered {k id : Nat} {input : ExecInput} {task : ExecTask} {program : Program}
    {item : PreStageSpec} {hex : String} {rest : List PreStageSpec} {bytes : Bytes}
    (htask : a.tasks[k]? = some task) (hpc : task.pc = .askItem program item hex id rest)
    (hanswer : a.exchange.answers[id]? = some (some bytes)) :
    Moves h a (.advance k input)
      (a.settle k task { store := a.store, pc := .writeItem program item hex bytes rest })
  | served {id : Nat} {rest : List Nat} {digest path : String} {input : ExecInput} {store : Store}
    {bytes : Option Bytes} (hqueue : a.exchange.queue = id :: rest)
    (hasked : a.exchange.asked[id]? = some digest) (hkeeps : Keeps h a.store store)
    (hpath : pathForDigest (baseDir h.dataDir) digest = some path)
    (hread : ∀ found, bytes = some found → a.store.files[Path.place path]? = some (.file found)) :
    Moves h a (.storageRequest input)
      { a with store, exchange := ({ a.exchange with queue := rest } : Exchange).answer [id] bytes }
  | awaited {id : Nat} {rest : List Nat} {digest : String} {input : ExecInput} {store : Store}
    (hqueue : a.exchange.queue = id :: rest) (hasked : a.exchange.asked[id]? = some digest)
    (hkeeps : Keeps h a.store store) :
    Moves h a (.storageRequest input)
      { a with store, exchange := ({ a.exchange with queue := rest } : Exchange).await digest id }
  | crashed {id : Nat} {rest : List Nat} {digest : String} {input : ExecInput}
    (hqueue : a.exchange.queue = id :: rest) (hasked : a.exchange.asked[id]? = some digest)
    (hpath : pathForDigest (baseDir h.dataDir) digest = none) :
    Moves h a (.storageRequest input) { a with crashed := true }
  | received {digest bytesB64 : String} :
    Moves h a (.storageData digest bytesB64)
      { a with exchange := a.exchange.storageData h.base64Decode digest bytesB64 }
  | put {digest bytesB64 : String} {input : StoreInput} {store : Store}
    (hkeeps : Keeps h a.store store) :
    Moves h a (.storagePut digest bytesB64 input) { a with store }

private theorem finished_of_answered {h : Host} {store : Store} {task : ExecTask}
    {answer : Option Bytes} {input : ExecInput} {out : Outcome}
    (hout : task.answered h store answer input = some out) : task.pc.finished = false := by
  unfold ExecTask.answered at hout
  split at hout
  · next hpc =>
    rw [hpc]
    rfl
  · next hpc =>
    rw [hpc]
    rfl
  · cases hout

private theorem moves_advance {h : Host} (hsha : ∀ bytes, IsDigest (h.sha256Hex bytes))
    {a d : Agent} {k : Nat} {input : ExecInput} (hstep : a.advance h k input = some d) :
    Moves h a (.advance k input) d := by
  obtain ⟨task, htask, hstep⟩ := Option.bind_eq_some_iff.mp hstep
  obtain ⟨out, hout, rfl⟩ := Option.map_eq_some_iff.mp hstep
  unfold Agent.outcome at hout
  split at hout
  · next id hid =>
    obtain ⟨answer, hanswer, hout⟩ := Option.bind_eq_some_iff.mp hout
    have hcases : ExecMoves h a.store task a.exchange.asked.length out ∨ _ :=
      execMoves_of_answered hsha hout
    rcases hcases with hmoves | ⟨program, item, hex, id', rest, bytes, hpc, rfl, rfl⟩
    · exact .moved (.inr ⟨input, rfl⟩) htask (finished_of_answered hout) hmoves
    · have hsame : id = id' := by
        unfold ExecTask.request at hid
        rw [hpc] at hid
        exact (Option.some.inj hid).symm
      subst hsame
      exact .delivered htask hpc hanswer
  · have hunfinished : task.pc.finished = false := by
      cases hpc : task.pc <;> simp [ExecTask.advance, hpc] at hout <;> rfl
    exact .moved (.inr ⟨input, rfl⟩) htask hunfinished (execMoves_of_advance hsha hout)

private theorem moves_timeout {h : Host} (hsha : ∀ bytes, IsDigest (h.sha256Hex bytes))
    {a d : Agent} {k : Nat} (hstep : a.timeout h k = some d) : Moves h a (.timeout k) d := by
  obtain ⟨task, htask, hstep⟩ := Option.bind_eq_some_iff.mp hstep
  obtain ⟨out, hout, rfl⟩ := Option.map_eq_some_iff.mp hstep
  have hcases : ExecMoves h a.store task a.exchange.asked.length out ∨ _ :=
    execMoves_of_answered hsha hout
  rcases hcases with hmoves | ⟨program, item, hex, id, rest, bytes, hpc, hnone, rfl⟩
  · exact .moved (.inl rfl) htask (finished_of_answered hout) hmoves
  · cases hnone

private theorem moves_storageRequest {h : Host} {a d : Agent} {input : ExecInput}
    (hstep : a.storageRequest h input = some d) : Moves h a (.storageRequest input) d := by
  unfold Agent.storageRequest at hstep
  split at hstep
  · cases hstep
  · next id rest hqueue =>
    cases hasked : a.exchange.asked[id]? with
    | none => simp [hasked] at hstep
    | some digest =>
      simp only [hasked, Option.bind_eq_bind, Option.bind_some] at hstep
      split at hstep
      · next hget =>
        cases hstep
        apply Moves.crashed hqueue hasked
        cases hpath : pathForDigest (baseDir h.dataDir) digest with
        | none => rfl
        | some path =>
          obtain ⟨r, hsome⟩ := getPath_isSome hpath (a.store.opened (baseDir h.dataDir))
            input.store
          rw [hsome] at hget
          cases hget
      · next store path hget =>
        cases hstep
        obtain ⟨hfiles, path', hpath, hwhere⟩ := getPath_eq_some hget
        have hsame : path' = path := by
          split at hwhere
          · exact (Option.some.inj hwhere).symm
          · cases hwhere
        subst hsame
        apply Moves.served hqueue hasked ((keeps_opened h a.store).trans (keeps_getPath hget)) hpath
        · intro found hfound
          cases hread : store.files.read (Path.place path') input.readError with
          | error e =>
            rw [hread] at hfound
            cases hfound
          | ok bytes =>
            rw [hread] at hfound
            cases hfound
            have hfile := Files.file_of_read hread
            rw [hfiles] at hfile
            exact file_of_opened hfile
      · next store hget =>
        cases hstep
        exact .awaited hqueue hasked ((keeps_opened h a.store).trans (keeps_getPath hget))

private theorem moves_storagePut {h : Host} (hsha : ∀ bytes, IsDigest (h.sha256Hex bytes))
    (a : Agent) (digest bytesB64 : String) (input : StoreInput) :
    Moves h a (.storagePut digest bytesB64 input) (a.storagePut h digest bytesB64 input) := by
  unfold Agent.storagePut
  split
  · exact .put (.refl a.store)
  · next bytes _ =>
    split
    · obtain ⟨⟨store, result⟩, hput⟩ := putBytes_isSome hsha (baseDir h.dataDir)
        (a.store.opened (baseDir h.dataDir)) bytes input
      simp only [hput]
      exact .put ((keeps_opened h a.store).trans (keeps_putBytes hsha hput))
    · exact .put (.refl a.store)

/-- Every step is one of these moves. -/
theorem moves_of_step {h : Host} (hsha : ∀ bytes, IsDigest (h.sha256Hex bytes)) {a d : Agent}
    {event : Event} (hstep : step h a event = some d) : Moves h a event d := by
  unfold step at hstep
  split at hstep
  · cases hstep
  · cases event with
    | execute job storage =>
      cases hstep
      exact .spawned
    | advance k input => exact moves_advance hsha hstep
    | timeout k => exact moves_timeout hsha hstep
    | storageRequest input => exact moves_storageRequest hstep
    | storageData digest bytesB64 =>
      cases hstep
      exact .received
    | storagePut digest bytesB64 input =>
      cases hstep
      exact moves_storagePut hsha a digest bytesB64 input

end PeerDeploy.Execution
