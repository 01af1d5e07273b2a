import PeerDeploy.Execution.Agent

/-!
# Attachments are what the job names

Before a program runs, its executor writes the attachments of the job: bytes from the content
store, or from the first peer that answers (`jobs_native.rs:163–191`, `jobs_wasm.rs:93–120`,
`jobs_qemu.rs:99–126` below `crates/agent/src/p2p`). The digest of the program is checked,
those of the attachments are not; the result says what has to hold for them all the same.
-/

namespace PeerDeploy.Execution

open PeerDeploy.Common PeerDeploy.Base PeerDeploy.Storage

/-- The event is a step of the `k`-th executor. -/
def Event.isStepOf (k : Nat) : Event → Prop
  | .advance j _ => j = k
  | .timeout j => j = k
  | _ => False

/-- By its own steps the executor comes to its end. -/
def Returns (h : Host) (a : Agent) (k : Nat) : Prop :=
  ∃ events d task, (∀ event ∈ events, event.isStepOf k) ∧ run (step h) a events = some d ∧
    d.tasks[k]? = some task ∧ task.pc.finished = true

/-- Each attachment written has the digest it was written for; a program runs only when all
attachments of its job are there; and an executor that does not get there returns an error. -/
structure AttachmentsAsNamed (h : Host) (a : Agent) : Prop where
  written : ∀ file ∈ a.staged, h.sha256Hex file.2.bytes = file.2.hex
  complete : ∀ (k : Nat) task path, a.tasks[k]? = some task → task.pc = .running path →
    ∀ item ∈ task.job.execution.preStage, ∀ hex, Text.stripPrefix "cas:" item.source = some hex →
      ∃ bytes, (k, ⟨hex, item.dest, bytes⟩) ∈ a.staged
  noPanic : a.crashed = false ∧ ∀ task ∈ a.tasks, task.pc ≠ .panicked
  returns : ∀ (k : Nat) task, a.tasks[k]? = some task → Returns h a k

/-- A file lies at the path of the text only if the text is a digest. -/
def NamesBlob (h : Host) (a : Agent) (text : String) : Prop :=
  ∀ path bytes, pathForDigest (baseDir h.dataDir) text = some path →
    a.store.files[Path.place path]? = some (.file bytes) → IsDigest text

/-- An executor waits for the answer to the request in order to write an attachment. -/
def Wanted (a : Agent) (id : Nat) : Prop :=
  ∃ task ∈ a.tasks, ∃ program item hex rest, task.pc = .askItem program item hex id rest

/-- Digest texts can be sliced and lead to no other file, no attachment is written over the
blob of another digest, and the bytes that arrive for an attachment have its digest. -/
def Honest (h : Host) (a : Agent) : Event → Prop
  | .advance k _ | .timeout k => ∀ task, a.tasks[k]? = some task →
    (∀ hex, task.looksUp = some hex → pathForDigest (baseDir h.dataDir) hex ≠ none) ∧
    (∀ program item hex path rest, task.pc = .readItem program item hex path rest →
      NamesBlob h a hex) ∧
    ∀ program item hex bytes rest, task.pc = .writeItem program item hex bytes rest →
      ∀ digest path, IsDigest digest → pathForDigest (baseDir h.dataDir) digest = some path →
        Path.place path = destPlace h item → digest = hex
  | .storageRequest _ => ∀ id rest digest, a.exchange.queue = id :: rest →
    a.exchange.asked[id]? = some digest →
      pathForDigest (baseDir h.dataDir) digest ≠ none ∧ (Wanted a id → NamesBlob h a digest)
  | .storageData digest bytesB64 => ∀ ids id bytes, a.exchange.pending[digest]? = some ids →
    id ∈ ids → Wanted a id → h.base64Decode bytesB64 = .ok bytes → h.sha256Hex bytes = digest
  | _ => True

/-! ### Executors return -/

private theorem getElem?_settle {a : Agent} {k : Nat} {task : ExecTask}
    (htask : a.tasks[k]? = some task) (out : Outcome) :
    (a.settle k task out).tasks[k]? = some { task with pc := out.pc } := by
  have hlt : k < a.tasks.length := (List.getElem?_eq_some_iff.mp htask).1
  simp [Agent.settle, hlt]

-- An executor that has not come to its end has a step, which brings it nearer.
private theorem step_of_unfinished {h : Host} (hsha : ∀ bytes, IsDigest (h.sha256Hex bytes))
    {a : Agent} (halive : a.crashed = false) {k : Nat} {task : ExecTask}
    (htask : a.tasks[k]? = some task) (hpc : task.pc.finished = false) :
    ∃ event d next, event.isStepOf k ∧ step h a event = some d ∧ d.crashed = false ∧
      d.tasks[k]? = some next ∧
        next.pc.stepsLeft next.job.execution.preStage.length <
          task.pc.stepsLeft task.job.execution.preStage.length := by
  cases hreq : task.request with
  | some id =>
    -- a request is open: it times out
    obtain ⟨out, hout⟩ : ∃ out, task.answered h a.store none {} = some out := by
      cases hp : task.pc with
      | askProgram id save =>
        exact ⟨programAnswered h a.store task save none {}, by simp only [ExecTask.answered, hp]⟩
      | askItem program item hex id rest =>
        exact ⟨itemAnswered a.store program item hex rest none,
          by simp only [ExecTask.answered, hp]⟩
      | _ => simp [ExecTask.request, hp] at hreq
    have hcases : ExecMoves h a.store task a.exchange.asked.length out ∨ _ :=
      execMoves_of_answered hsha hout
    rcases hcases with hmoves | ⟨_, _, _, _, _, _, -, hnone, -⟩
    · have hstep : step h a (.timeout k) = some (a.settle k task out) := by
        simp [step, halive, Agent.timeout, htask, hout]
      exact ⟨.timeout k, a.settle k task out, _, rfl, hstep, halive, getElem?_settle htask out,
        stepsLeft_lt_of_moves hmoves hpc⟩
    · cases hnone
  | none =>
    obtain ⟨out, hout⟩ : ∃ out, task.advance h a.store a.exchange.asked.length {} = some out := by
      unfold ExecTask.advance
      unfold ExecTask.request at hreq
      split
      all_goals first | exact ⟨_, rfl⟩ | simp_all [ExecPc.finished]
    have hstep : step h a (.advance k {}) = some (a.settle k task out) := by
      simp [step, halive, Agent.advance, htask, Agent.outcome, hreq, hout]
    exact ⟨.advance k {}, a.settle k task out, _, rfl, hstep, halive, getElem?_settle htask out,
      stepsLeft_lt_of_moves (execMoves_of_advance hsha hout) hpc⟩

private theorem returns_of_alive {h : Host} (hsha : ∀ bytes, IsDigest (h.sha256Hex bytes))
    {a : Agent} (halive : a.crashed = false) {k : Nat} {task : ExecTask}
    (htask : a.tasks[k]? = some task) : Returns h a k := by
  -- by induction on the steps left
  generalize hn : task.pc.stepsLeft task.job.execution.preStage.length = n
  induction n using Nat.strongRecOn generalizing a task with
  | ind n ih =>
    cases hpc : task.pc.finished with
    | true => exact ⟨[], a, task, by simp, rfl, htask, hpc⟩
    | false =>
      obtain ⟨event, d, next, hof, hstep, hd, hnext, hless⟩ :=
        step_of_unfinished hsha halive htask hpc
      obtain ⟨events, e, last, hall, hrun, hlast, hfin⟩ := ih _ (hn ▸ hless) hd hnext rfl
      have hown : ∀ own ∈ event :: events, own.isStepOf k := by
        intro own hin
        rcases List.mem_cons.mp hin with rfl | hin
        · exact hof
        · exact hall own hin
      exact ⟨event :: events, e, last, hown, run_cons_eq_some.mpr ⟨d, hstep, hrun⟩, hlast, hfin⟩

/-! ### The invariant -/

/-- All attachments of the job but the rest are written. -/
def Covered (a : Agent) (k : Nat) (task : ExecTask) (rest : List PreStageSpec) : Prop :=
  ∃ done, task.job.execution.preStage = done ++ rest ∧
    ∀ item ∈ done, ∀ hex, Text.stripPrefix "cas:" item.source = some hex →
      ∃ bytes, (k, ⟨hex, item.dest, bytes⟩) ∈ a.staged

/-- What holds of the `k`-th executor: what is left to stage, that the file it reads is the
blob of the digest, and that the answer it gets and the bytes it writes have the digest. -/
def TaskInv (h : Host) (a : Agent) (k : Nat) (task : ExecTask) : Prop :=
  match task.pc with
  | .stage _ rest => Covered a k task rest
  | .readItem _ item hex path rest => Covered a k task (item :: rest) ∧
    Text.stripPrefix "cas:" item.source = some hex ∧
    pathForDigest (baseDir h.dataDir) hex = some path
  | .askItem _ item hex id rest => Covered a k task (item :: rest) ∧
    Text.stripPrefix "cas:" item.source = some hex ∧ a.exchange.asked[id]? = some hex ∧
    ∀ bytes, a.exchange.answers[id]? = some (some bytes) → h.sha256Hex bytes = hex
  | .writeItem _ item hex bytes rest => Covered a k task (item :: rest) ∧
    Text.stripPrefix "cas:" item.source = some hex ∧ h.sha256Hex bytes = hex
  | .running _ => Covered a k task []
  | .panicked => False
  | _ => True

/-- What holds of an agent in honest runs. -/
structure AgentInv (h : Host) (a : Agent) : Prop where
  store : StoreInv h.sha256Hex (baseDir h.dataDir) a.store.files
  exchange : a.exchange.Inv
  tasks : ∀ (k : Nat) task, a.tasks[k]? = some task → TaskInv h a k task
  staged : ∀ file ∈ a.staged, h.sha256Hex file.2.bytes = file.2.hex
  alive : a.crashed = false

private theorem covered_mono {a d : Agent} (hstaged : a.staged ⊆ d.staged) {k : Nat}
    {task : ExecTask} {rest : List PreStageSpec} (h : Covered a k task rest) :
    Covered d k task rest := by
  obtain ⟨done, hsplit, hdone⟩ := h
  refine ⟨done, hsplit, ?_⟩
  intro item hitem hex hsource
  obtain ⟨bytes, hin⟩ := hdone item hitem hex hsource
  exact ⟨bytes, hstaged hin⟩

private theorem covered_cons {a : Agent} {k : Nat} {task : ExecTask} {item : PreStageSpec}
    {rest : List PreStageSpec} (h : Covered a k task (item :: rest))
    (hitem : ∀ hex, Text.stripPrefix "cas:" item.source = some hex →
      ∃ bytes, (k, ⟨hex, item.dest, bytes⟩) ∈ a.staged) : Covered a k task rest := by
  obtain ⟨done, hsplit, hdone⟩ := h
  refine ⟨done ++ [item], by rw [hsplit]; simp, ?_⟩
  intro other hother hex hsource
  rcases List.mem_append.mp hother with hother | hother
  · exact hdone other hother hex hsource
  · rw [List.mem_singleton.mp hother] at hsource ⊢
    exact hitem hex hsource

-- An executor at rest only depends on the written attachments, the requests made, and the answer it
-- waits for.
private theorem taskInv_frame {h : Host} {a d : Agent} {k : Nat} {task : ExecTask}
    (hstaged : a.staged ⊆ d.staged)
    (hasked : ∀ (id : Nat) hex, a.exchange.asked[id]? = some hex →
      d.exchange.asked[id]? = some hex)
    (hanswers : ∀ program item hex id rest bytes, task.pc = .askItem program item hex id rest →
      d.exchange.answers[id]? = some (some bytes) →
        a.exchange.answers[id]? = some (some bytes) ∨ h.sha256Hex bytes = hex)
    (hold : TaskInv h a k task) : TaskInv h d k task := by
  cases hpc : task.pc with
  | stage program rest =>
    simp only [TaskInv, hpc] at hold ⊢
    exact covered_mono hstaged hold
  | readItem program item hex path rest =>
    simp only [TaskInv, hpc] at hold ⊢
    exact ⟨covered_mono hstaged hold.1, hold.2⟩
  | askItem program item hex id rest =>
    simp only [TaskInv, hpc] at hold ⊢
    obtain ⟨hcovered, hsource, hid, hanswer⟩ := hold
    refine ⟨covered_mono hstaged hcovered, hsource, hasked id hex hid, ?_⟩
    intro bytes hb
    rcases hanswers program item hex id rest bytes hpc hb with hold | hnew
    · exact hanswer bytes hold
    · exact hnew
  | writeItem program item hex bytes rest =>
    simp only [TaskInv, hpc] at hold ⊢
    exact ⟨covered_mono hstaged hold.1, hold.2⟩
  | running path =>
    simp only [TaskInv, hpc] at hold ⊢
    exact covered_mono hstaged hold
  | panicked =>
    simp only [TaskInv, hpc] at hold
  | _ => simp only [TaskInv, hpc]

/-! ### Steps -/

-- A step of an executor has to answer for its store, its own state and what it has written.
private theorem agentInv_settle {h : Host} {a : Agent} (hinv : AgentInv h a) {k : Nat}
    {task : ExecTask} {out : Outcome}
    (hstore : StoreInv h.sha256Hex (baseDir h.dataDir) out.store.files)
    (hnext : TaskInv h (a.settle k task out) k { task with pc := out.pc })
    (hwrote : ∀ file, out.wrote = some file → h.sha256Hex file.bytes = file.hex) :
    AgentInv h (a.settle k task out) := by
  have hstaged : a.staged ⊆ (a.settle k task out).staged := List.subset_append_left _ _
  have hasked : ∀ (id : Nat) hex, a.exchange.asked[id]? = some hex →
      (a.settle k task out).exchange.asked[id]? = some hex := by
    intro id hex hid
    simp only [Agent.settle]
    split
    · exact Exchange.asked_get_of_some hid _
    · exact hid
  have hanswers : (a.settle k task out).exchange.answers = a.exchange.answers := by
    simp only [Agent.settle]
    split
    · rfl
    · rfl
  constructor
  case store => exact hstore
  case exchange =>
    simp only [Agent.settle]
    split
    · exact Exchange.inv_get hinv.exchange _
    · exact hinv.exchange
  case tasks =>
    intro j other hj
    by_cases hjk : j = k
    · subst hjk
      have hlt : j < a.tasks.length := by
        have hlt := (List.getElem?_eq_some_iff.mp hj).1
        simpa [Agent.settle] using hlt
      simp only [Agent.settle, List.getElem?_set_self hlt] at hj
      cases hj
      exact hnext
    · simp only [Agent.settle, List.getElem?_set_ne (Ne.symm hjk)] at hj
      apply taskInv_frame hstaged hasked _ (hinv.tasks j other hj)
      intro _ _ _ id _ bytes _ hb
      rw [hanswers] at hb
      exact .inl hb
  case staged =>
    intro file hfile
    rcases List.mem_append.mp hfile with hfile | hfile
    · exact hinv.staged file hfile
    · cases hw : out.wrote with
      | none => simp [hw] at hfile
      | some found =>
        simp only [hw, Option.map_some, Option.toList_some, List.mem_singleton] at hfile
        rw [hfile]
        exact hwrote found hw
  case alive => exact hinv.alive

private theorem agentInv_moved {h : Host} {a : Agent} (hinv : AgentInv h a) {k : Nat}
    {event : Event} {task : ExecTask} {out : Outcome} (hcond : Honest h a event)
    (hevent : event = .timeout k ∨ ∃ input, event = .advance k input)
    (htask : a.tasks[k]? = some task)
    (hmoves : ExecMoves h a.store task a.exchange.asked.length out) :
    AgentInv h (a.settle k task out) := by
  obtain ⟨hlooks, hreads, hwrites⟩ : _ ∧ _ ∧ _ := by
    rcases hevent with rfl | ⟨input, rfl⟩
    · exact hcond task htask
    · exact hcond task htask
  have hold := hinv.tasks k task htask
  have hstaged : a.staged ⊆ (a.settle k task out).staged := List.subset_append_left _ _
  cases hmoves with
  | failed hkeeps =>
    exact agentInv_settle hinv (hkeeps.inv hinv.store) trivial (by simp [Outcome.fail])
  | panicked hlook hpath => exact absurd hpath (hlooks _ hlook)
  | @sought t pc ask hkeeps hnext _ =>
    apply agentInv_settle hinv (hkeeps.inv hinv.store) _ (by simp)
    cases pc with
    | start | fetchProgram | readProgram path | askProgram id save => trivial
    | _ => cases hnext
  | obtained _ hkeeps =>
    exact agentInv_settle hinv (hkeeps.inv hinv.store) ⟨[], rfl, by simp⟩ (by simp)
  | skipped hpc hsource =>
    simp only [TaskInv, hpc] at hold
    apply agentInv_settle hinv hinv.store _ (by simp)
    apply covered_cons (covered_mono hstaged hold)
    intro hex hhex
    rw [hsource] at hhex
    cases hhex
  | located hpc hsource hkeeps hpath _ =>
    simp only [TaskInv, hpc] at hold
    exact agentInv_settle hinv (hkeeps.inv hinv.store) ⟨covered_mono hstaged hold, hsource, hpath⟩
      (by simp)
  | @asked t program item rest hex hpc hsource hkeeps =>
    simp only [TaskInv, hpc] at hold
    apply agentInv_settle hinv (hkeeps.inv hinv.store) _ (by simp)
    refine ⟨covered_mono hstaged hold, hsource, Exchange.asked_get _ hex, ?_⟩
    -- a new request has no answer yet
    intro bytes hb
    have hnone := hinv.exchange.answered a.exchange.asked.length (Nat.le_refl _)
    rw [show (a.settle k task _).exchange.answers = a.exchange.answers from rfl, hnone] at hb
    cases hb
  | @read program item rest hex path bytes hpc hfile =>
    simp only [TaskInv, hpc] at hold
    obtain ⟨hcovered, hsource, hpath⟩ := hold
    have hdigest : IsDigest hex := hreads program item hex path rest hpc path bytes hpath hfile
    exact agentInv_settle hinv hinv.store ⟨covered_mono hstaged hcovered, hsource,
      hinv.store hex path bytes hdigest hpath hfile⟩ (by simp)
  | @wrote t program item rest hex bytes hpc hkept _ =>
    simp only [TaskInv, hpc] at hold
    obtain ⟨hcovered, hsource, hsha⟩ := hold
    have hplace : ∀ digest path, IsDigest digest →
        pathForDigest (baseDir h.dataDir) digest = some path →
          Path.place path = destPlace h item → h.sha256Hex bytes = digest := by
      intro digest path hd hpath heq
      rw [hsha]
      exact (hwrites program item hex bytes rest hpc digest path hd hpath heq).symm
    apply agentInv_settle hinv (hkept hplace hinv.store)
    · apply covered_cons (covered_mono hstaged hcovered)
      intro found hfound
      rw [hsource] at hfound
      cases hfound
      exact ⟨bytes, List.mem_append_right _ (by simp)⟩
    · intro file hfile
      cases hfile
      exact hsha
  | launched hpc hkeeps =>
    simp only [TaskInv, hpc] at hold
    exact agentInv_settle hinv (hkeeps.inv hinv.store) (covered_mono hstaged hold) (by simp)

private theorem agentInv_loop {h : Host} {a : Agent} (hinv : AgentInv h a) {store : Store}
    {exchange : Exchange} (hstore : StoreInv h.sha256Hex (baseDir h.dataDir) store.files)
    (hexchange : exchange.Inv) (hasked : exchange.asked = a.exchange.asked)
    (hanswers : ∀ id bytes, Wanted a id → exchange.answers[id]? = some (some bytes) →
      a.exchange.answers[id]? = some (some bytes) ∨
        ∃ digest, a.exchange.asked[id]? = some digest ∧ h.sha256Hex bytes = digest) :
    AgentInv h { a with store, exchange } := by
  refine ⟨hstore, hexchange, ?_, hinv.staged, hinv.alive⟩
  intro k task htask
  have hold := hinv.tasks k task htask
  apply taskInv_frame (a := a) (d := { a with store, exchange }) (List.Subset.refl _) _ _ hold
  · intro id hex hid
    change exchange.asked[id]? = some hex
    rw [hasked]
    exact hid
  · intro program item hex id rest bytes hpc hb
    have hwanted : Wanted a id :=
      ⟨task, List.mem_of_getElem? htask, program, item, hex, rest, hpc⟩
    rcases hanswers id bytes hwanted hb with hbefore | ⟨digest, hdigest, hsha⟩
    · exact .inl hbefore
    · simp only [TaskInv, hpc] at hold
      rw [hold.2.2.1] at hdigest
      cases hdigest
      exact .inr hsha

private theorem agentInv_step {h : Host} (hsha : ∀ bytes, IsDigest (h.sha256Hex bytes))
    {a d : Agent} {event : Event} (hinv : AgentInv h a) (hcond : Honest h a event)
    (hstep : step h a event = some d) : AgentInv h d := by
  cases moves_of_step hsha hstep with
  | @spawned job storage =>
    refine ⟨hinv.store, hinv.exchange, ?_, hinv.staged, hinv.alive⟩
    intro k task htask
    change (a.tasks ++ [({ job, storage } : ExecTask)])[k]? = some task at htask
    rw [List.getElem?_append] at htask
    split at htask
    · exact hinv.tasks k task htask
    · cases List.mem_singleton.mp (List.mem_of_getElem? htask)
      trivial
  | moved hevent htask _ hmoves => exact agentInv_moved hinv hcond hevent htask hmoves
  | @delivered k id input task program item hex rest bytes htask hpc hanswer =>
    have hold := hinv.tasks k task htask
    simp only [TaskInv, hpc] at hold
    obtain ⟨hcovered, hsource, -, hsound⟩ := hold
    exact agentInv_settle hinv hinv.store ⟨covered_mono (List.subset_append_left _ _) hcovered,
      hsource, hsound bytes hanswer⟩ (by simp)
  | @served id rest digest path input store bytes hqueue hasked hkeeps hpath hread =>
    have hlt : id < a.exchange.asked.length := (List.getElem?_eq_some_iff.mp hasked).1
    have hmade : ∀ other ∈ [id], other < a.exchange.asked.length := by simpa using hlt
    have hexchange :=
      Exchange.inv_answer (Exchange.inv_dequeue hinv.exchange hqueue) hmade bytes
    apply agentInv_loop hinv (hkeeps.inv hinv.store) hexchange rfl
    intro other found hwanted hfound
    rw [Exchange.answers_answer] at hfound
    split at hfound
    · next hin =>
      cases List.mem_singleton.mp hin
      have hfile := hread found (Option.some.inj hfound)
      have hdigest := (hcond id rest digest hqueue hasked).2 hwanted path found hpath hfile
      exact .inr ⟨digest, hasked, hinv.store digest path found hdigest hpath hfile⟩
    · exact .inl hfound
  | @awaited id rest digest input store hqueue hasked hkeeps =>
    exact agentInv_loop hinv (hkeeps.inv hinv.store)
      (Exchange.inv_await (Exchange.inv_dequeue hinv.exchange hqueue) hasked) rfl
      fun _ _ _ hfound ↦ .inl hfound
  | crashed hqueue hasked hpath => exact absurd hpath (hcond _ _ _ hqueue hasked).1
  | @received digest bytesB64 =>
    obtain ⟨hexchange, hasked⟩ :=
      Exchange.inv_storageData hinv.exchange h.base64Decode digest bytesB64
    apply agentInv_loop hinv hinv.store hexchange hasked
    intro id bytes hwanted hfound
    rcases Exchange.answers_storageData hfound with hold | ⟨hdecode, ids, hids, hid⟩
    · exact .inl hold
    · exact .inr ⟨digest, hinv.exchange.pending digest ids id hids hid,
        hcond ids id bytes hids hid hwanted hdecode⟩
  | put hkeeps =>
    exact agentInv_loop hinv (hkeeps.inv hinv.store) hinv.exchange rfl
      fun _ _ _ hfound ↦ .inl hfound

private theorem attachmentsAsNamed_of_inv {h : Host}
    (hsha : ∀ bytes, IsDigest (h.sha256Hex bytes)) {a : Agent} (hinv : AgentInv h a) :
    AttachmentsAsNamed h a where
  written := hinv.staged
  complete k task path htask hpc item hitem hex hsource := by
    have hold := hinv.tasks k task htask
    simp only [TaskInv, hpc] at hold
    obtain ⟨done, hsplit, hdone⟩ := hold
    rw [hsplit, List.append_nil] at hitem
    exact hdone item hitem hex hsource
  noPanic := by
    refine ⟨hinv.alive, ?_⟩
    intro task htask hpc
    obtain ⟨k, hk⟩ := List.getElem?_of_mem htask
    have hold := hinv.tasks k task hk
    simp only [TaskInv, hpc] at hold
  returns _ _ htask := returns_of_alive hsha hinv.alive htask

/-- In every run of executors of any jobs, from any content store whose blobs have the digests
in their names, under the condition each attachment written has the digest that the job names,
a program runs only when all attachments are there, and else its executor returns an error.
Programs and the staging of artifacts, which could write over blobs, are not followed. -/
theorem attachments_as_named (h : Host) (hsha : ∀ bytes, IsDigest (h.sha256Hex bytes))
    (store : Store) (hstore : StoreInv h.sha256Hex (baseDir h.dataDir) store.files)
    (events : List Event) (hcond : StepsMeet (step h) (Honest h) { store } events) :
    Throughout (step h) (AttachmentsAsNamed h) { store } events := by
  have hinv : ∀ a event d, AgentInv h a → Honest h a event → step h a event = some d →
      AgentInv h d := fun a event d hi hp hstep ↦ agentInv_step hsha hi hp hstep
  refine throughout_of_invariant hinv (fun a hi ↦ attachmentsAsNamed_of_inv hsha hi) ?_ hcond
  refine ⟨hstore, ⟨by simp, ?_, by simp⟩, by simp, by simp, rfl⟩
  intro digest ids id hids
  simp at hids

/-! ### A peer that tells the truth, and one that lies -/

/-- A test that implies the condition. -/
def isHonest (h : Host) (a : Agent) : Event → Bool
  | .advance k _ | .timeout k => (a.tasks[k]?).all fun task ↦
    task.looksUp.all (fun hex ↦ (pathForDigest (baseDir h.dataDir) hex).isSome) &&
      match task.pc with
      | .readItem _ _ hex _ _ => isDigest hex
      | .writeItem _ item _ _ _ =>
        !(Path.place (baseDir h.dataDir)).isPrefixOf (destPlace h item)
      | _ => true
  | .storageRequest _ => a.exchange.queue.head?.all fun id ↦
    (a.exchange.asked[id]?).all fun digest ↦
      (pathForDigest (baseDir h.dataDir) digest).isSome && isDigest digest
  | .storageData digest bytesB64 =>
    (h.base64Decode bytesB64).toOption.all (h.sha256Hex · == digest)
  | _ => true

private theorem honest_of_step {h : Host} {a : Agent} {k : Nat} {task : ExecTask}
    (htask : a.tasks[k]? = some task) (htest : isHonest h a (.timeout k) = true) :
    (∀ hex, task.looksUp = some hex → pathForDigest (baseDir h.dataDir) hex ≠ none) ∧
    (∀ program item hex path rest, task.pc = .readItem program item hex path rest →
      NamesBlob h a hex) ∧
    ∀ program item hex bytes rest, task.pc = .writeItem program item hex bytes rest →
      ∀ digest path, IsDigest digest → pathForDigest (baseDir h.dataDir) digest = some path →
        Path.place path = destPlace h item → digest = hex := by
  simp only [isHonest, htask, Option.all_some, Bool.and_eq_true] at htest
  obtain ⟨hlooks, hpc⟩ := htest
  refine ⟨?_, ?_, ?_⟩
  · intro hex hhex
    rw [hhex, Option.all_some] at hlooks
    exact Option.isSome_iff_ne_none.mp hlooks
  · intro program item hex path rest hp _ _ _ _
    simpa [hp, IsDigest] using hpc
  · -- the blob of a digest lies below the base directory, the attachment does not
    intro program item hex bytes rest hp digest path hd hpath heq
    obtain ⟨path', b, c, hpath', hplace⟩ := pathForDigest_of_isDigest (baseDir h.dataDir) hd
    rw [hpath] at hpath'
    cases hpath'
    have hbelow : (Path.place (baseDir h.dataDir)).isPrefixOf (destPlace h item) = true := by
      rw [← heq, hplace]
      exact List.isPrefixOf_iff_prefix.mpr (List.prefix_append _ _)
    simp [hp, hbelow] at hpc

private theorem honest_of_test (h : Host) (a : Agent) (event : Event)
    (htest : isHonest h a event = true) : Honest h a event := by
  cases event with
  | advance k input => exact fun task htask ↦ honest_of_step htask htest
  | timeout k => exact fun task htask ↦ honest_of_step htask htest
  | storageRequest input =>
    intro id rest digest hqueue hasked
    simp only [isHonest, hqueue, List.head?_cons, Option.all_some, hasked,
      Bool.and_eq_true] at htest
    exact ⟨Option.isSome_iff_ne_none.mp htest.1, fun _ _ _ _ _ ↦ htest.2⟩
  | storageData digest bytesB64 =>
    intro ids id bytes _ _ _ hdecode
    simpa [isHonest, hdecode, Except.toOption] using htest
  | _ => trivial

/-- An empty WebAssembly module. -/
def wasmModule : Bytes := [0, 97, 115, 109, 1, 0, 0, 0]

/-- Its digest. -/
def wasmDigest : String := "93a44bbb96c751218e4c00d479e4c14358122a389acca16205b1e4d0dc5f9476"

/-- A Linux host, with digests and base64 texts of the module and of the text `hi`. -/
def sampleHost : Host where
  sha256Hex bytes :=
    if bytes = wasmModule then wasmDigest
    else "8f434346648f6b96df89dda901c5176b10a6d83961dd3c1ac88b59b2dc327aa4"
  base64Decode text :=
    if text = "AGFzbQEAAAA=" then .ok wasmModule
    else if text = "aGk=" then .ok [104, 105]
    else .error "Invalid padding"
  dataDir := "/d"
  cwd := "/"
  os := "linux"
  which _ := none

/-- A job with the module as its attachment. -/
def sampleJob : JobSpec where
  name := "report"
  runtime := .wasm "file:/srv/report.wasm" none 64 1000000 100 none
  execution := { preStage := [⟨"cas:" ++ wasmDigest, "/t/a"⟩] }

/-- The job is executed; a peer answers the request for the attachment with the text. -/
def answeredWith (bytesB64 : String) : List Event :=
  [.execute sampleJob true, .advance 0 {}, .advance 0 { fetched := .ok wasmModule },
    .advance 0 {}, .storageRequest {}, .storageData wasmDigest bytesB64, .advance 0 {},
    .advance 0 {}, .advance 0 {}]

/-- The digests of the sample host are digests. -/
theorem isDigest_sampleHost (bytes : Bytes) : IsDigest (sampleHost.sha256Hex bytes) := by
  change IsDigest (if bytes = wasmModule then _ else _)
  split
  · decide +kernel
  · decide +kernel

/-- With the true answer the attachment is written and the program runs. -/
theorem attachments_as_named_answered :
    (run (step sampleHost) {} (answeredWith "AGFzbQEAAAA=")).map (fun a ↦
      (a.staged, a.tasks.map (·.pc.finished))) =
        some ([(0, ⟨wasmDigest, "/t/a", wasmModule⟩)], [true]) ∧
      Throughout (step sampleHost) (AttachmentsAsNamed sampleHost) {}
        (answeredWith "AGFzbQEAAAA=") :=
  ⟨by decide +kernel,
    attachments_as_named sampleHost isDigest_sampleHost {} (by simp [StoreInv]) _
      (stepsMeet_of_checkSteps (honest_of_test sampleHost) (by decide +kernel))⟩

/-- With a lie the executor writes what the peer has sent, under the name of the module. -/
theorem lie_is_staged :
    ¬ Throughout (step sampleHost) (AttachmentsAsNamed sampleHost) {} (answeredWith "aGk=") := by
  intro hall
  have hrun : (run (step sampleHost) {} (answeredWith "aGk=")).map (·.staged) =
      some [(0, ⟨wasmDigest, "/t/a", [104, 105]⟩)] := by decide +kernel
  obtain ⟨a, ha, hstaged⟩ := Option.map_eq_some_iff.mp hrun
  have hwritten := (hall (answeredWith "aGk=") [] (by simp) a ha).written
    (0, ⟨wasmDigest, "/t/a", [104, 105]⟩) (by rw [hstaged]; simp)
  exact absurd hwritten (by decide)

end PeerDeploy.Execution
