import PeerDeploy.Cluster.Network

/-!
# What merging gossiped snapshots costs

Senders trim the records of a SyncJobs message and receivers take a newer record whole
(`crates/agent/src/job_manager.rs:440–466`). In a run of the mesh every such message is a
trimmed snapshot of a keyed store, so the results that a delivery costs are known exactly.
-/

namespace PeerDeploy.Cluster

open PeerDeploy.Common PeerDeploy.Base PeerDeploy.Job

/-- Every store is keyed and every SyncJobs message is a trimmed snapshot. -/
structure SyncInv (c : Mesh) : Prop where
  keyed : ∀ n, (c.node n).jobs.Keyed
  trimmed : ∀ src nodeId jobs, (src, Command.syncJobs nodeId jobs) ∈ c.sent → Trimmed jobs

/-- If the event merges a SyncJobs message, the receiver keeps all results it has recorded. -/
def MergeKeepsResults (hash : List StateKey → UInt64) (c : Mesh) (event : Event) : Prop :=
  ∀ d n i now order src nodeId jobs, event = .deliver n i now order →
    c.sent[i]? = some (src, .syncJobs nodeId jobs) → step hash c event = some d →
      ResultsKept (c.node n).jobs (d.node n).jobs

/-- If the event merges a SyncJobs message, no record that it replaces has a result that the
incoming one lacks. -/
def MergeReplacesNoResult (c : Mesh) : Event → Prop
  | .deliver n i _ _ => ∀ src nodeId jobs, c.sent[i]? = some (src, .syncJobs nodeId jobs) →
    src ≠ some n → ReplacesNoResult (c.node n).jobs jobs
  | _ => True

/-! ### The invariant -/

private theorem syncInv_start (platform : String → String) (roles : String → List String) :
    SyncInv (startMesh platform roles) where
  keyed _ := JobManagerState.keyed_empty
  trimmed src nodeId jobs h := by simp [startMesh] at h

private theorem syncInv_put {c : Mesh} (h : SyncInv c) {n : String} {out : Node × List Command}
    (hk : out.1.jobs.Keyed) (ht : ∀ nodeId jobs, Command.syncJobs nodeId jobs ∈ out.2 →
      Trimmed jobs) : SyncInv (c.put n out) where
  keyed m := by
    by_cases hm : m = n
    · subst hm
      rw [node_put_self]
      exact hk
    · rw [node_put_ne c hm]
      exact h.keyed m
  trimmed src nodeId jobs hmem := by
    rcases List.mem_append.mp hmem with hmem | hmem
    · exact h.trimmed src nodeId jobs hmem
    · obtain ⟨cmd, hc, he⟩ := List.mem_map.mp hmem
      cases he
      exact ht nodeId jobs hc

private theorem advance_keeps {host : Host} {s jobs : JobManagerState} {task : SubmitTask}
    {input : StepInput} {pc : SubmitPc} {cmds : List Command} (hk : s.Keyed)
    (h : task.advance host s input = some (jobs, pc, cmds)) :
    jobs.Keyed ∧ ∀ nodeId snapshot, Command.syncJobs nodeId snapshot ∉ cmds := by
  have hcall (op : ManagerOp) : (op.apply s input.now).Keyed := keyed_apply hk input.now op
  obtain ⟨originNodeId, jobId, spec, roles, at'⟩ := task
  cases at' with
  | submit =>
    cases h
    exact ⟨JobManagerState.keyed_submitJob hk _ _ _ _ _, by simp⟩
  | assign =>
    cases h
    exact ⟨hcall (.assignJob jobId host.nodeId), by simp⟩
  | start =>
    cases h
    exact ⟨hcall (.startJob jobId), by simp⟩
  | announce =>
    cases h
    exact ⟨hcall (.addJobLog jobId _ _), by simp⟩
  | executing =>
    simp only [SubmitTask.advance, Option.some.injEq, recordResult] at h
    split at h
    · cases h
      exact ⟨hcall (.addJobLog jobId _ _), by simp⟩
    · cases h
      exact ⟨hcall (.failJob jobId _), by simp⟩
    · cases h
      exact ⟨hcall (.completeJob jobId 0), by simp⟩
    · cases h
      exact ⟨hcall (.failJob jobId _), by simp⟩
  | closing =>
    cases h
    exact ⟨hcall (.completeJob jobId 0), by simp⟩
  | finished | ignored | declined | crashed => cases h
  | _ =>
    cases h
    exact ⟨hk, by simp⟩

private theorem syncInv_step {hash : List StateKey → UInt64} {c d : Mesh} {event : Event}
    (h : SyncInv c) (hstep : step hash c event = some d) : SyncInv d := by
  cases moves_of_step hstep with
  | @client cmd hcmd =>
    constructor
    · exact h.keyed
    · intro src nodeId jobs hmem
      rcases List.mem_append.mp hmem with hmem | hmem
      · exact h.trimmed src nodeId jobs hmem
      · rw [List.mem_singleton, Prod.mk.injEq] at hmem
        rw [← hmem.2] at hcmd
        cases hcmd
  | @deliver n i now order src cmd out hsent hsrc hout =>
    rcases receive_cases hout with ⟨_, _, rfl⟩ | ⟨_, jobs, _, rfl⟩ | ⟨ho, rfl⟩ | ⟨op, _, rfl⟩
    · exact syncInv_put h (h.keyed n) (by simp)
    · exact syncInv_put h (JobManagerState.keyed_syncJobs (h.keyed n) jobs) (by simp)
    · apply syncInv_put h (h.keyed n)
      intro nodeId jobs hmem
      cases List.mem_singleton.mp hmem
      exact trimmed_replySnapshot (h.keyed n) ho
    · exact syncInv_put h (keyed_apply (h.keyed n) now op) (by simp)
  | @advance n k input task jobs pc cmds htask hadv =>
    obtain ⟨hk, hno⟩ := advance_keeps (h.keyed n) hadv
    exact syncInv_put h hk fun nodeId snapshot hmem ↦ absurd hmem (hno nodeId snapshot)
  | @syncTick n order horder =>
    unfold Node.syncTick
    simp only
    split
    · exact syncInv_put h (h.keyed n) (by simp)
    · apply syncInv_put h (h.keyed n)
      intro nodeId jobs hmem
      cases List.mem_singleton.mp hmem
      exact trimmed_tickSnapshot (h.keyed n) horder
  | @connectionEstablished n order horder =>
    apply syncInv_put h (h.keyed n)
    intro nodeId jobs hmem
    cases List.mem_singleton.mp hmem
    exact trimmed_replySnapshot (h.keyed n) horder
  | @change n change => exact syncInv_put h (change.keyed _ (h.keyed n)) (by simp)

/-! ### The results that deliveries cost -/

private theorem mergeKeepsResults_iff (hash : List StateKey → UInt64) {c : Mesh} (h : SyncInv c)
    (event : Event) : MergeKeepsResults hash c event ↔ MergeReplacesNoResult c event := by
  cases event with
  | deliver n i now order =>
    constructor
    · intro hk src nodeId jobs hsent hsrc
      have hstep : step hash c (.deliver n i now order) =
          some (c.put n ({ c.node n with jobs := (c.node n).jobs.syncJobs jobs }, [])) := by
        simp [step, hsent, hsrc, Node.receive]
      have hres := hk _ n i now order src nodeId jobs rfl hsent hstep
      rw [node_put_self] at hres
      exact (resultsKept_syncJobs_iff _ (h.trimmed _ _ _ (List.mem_of_getElem? hsent))).mp hres
    · intro hr d m j now' order' src nodeId jobs he hsent hstep
      cases he
      have hsrc : src ≠ some n := by
        intro hs
        simp [step, hsent, hs] at hstep
      simp only [step, hsent, if_neg hsrc, Node.receive, Option.map_some,
        Option.some.injEq] at hstep
      subst hstep
      rw [node_put_self]
      exact (resultsKept_syncJobs_iff _ (h.trimmed _ _ _ (List.mem_of_getElem? hsent))).mpr
        (hr src nodeId jobs hsent hsrc)
  | _ => simp [MergeKeepsResults, MergeReplacesNoResult]

/-- In a run of agents that start with empty stores, merging SyncJobs messages never destroys
a recorded log or artifact entry exactly when no merge replaces a record that has a log
entry, or an artifact that the newer record lacks. -/
theorem sync_keeps_results_iff (hash : List StateKey → UInt64) (platform : String → String)
    (roles : String → List String) (events : List Event) :
    StepsMeet (step hash) (MergeKeepsResults hash) (startMesh platform roles) events ↔
      StepsMeet (step hash) MergeReplacesNoResult (startMesh platform roles) events :=
  stepsMeet_congr_of_invariant SyncInv (fun _ _ _ h hstep ↦ syncInv_step h hstep)
    (fun _ event h ↦ mergeKeepsResults_iff hash h event) (syncInv_start platform roles) events

/-- A job for node a only. -/
def jobForA : JobSpec := { buildSpec with targeting := some { nodeIds := ["node-a"] } }

/-- A file that the job produced. -/
def report : JobArtifact := { name := "report", storedPath := "/artifacts/report" }

/-- Node a runs the job and records an artifact; node b, which only tracks the job, hears of
its completion five seconds later and then takes its turn to publish a snapshot. -/
def lateTracker : List Event :=
  [.client (.submitJob "cli" "job-1" jobForA), .deliver "node-a" 0 (fun _ ↦ 100) [],
      .deliver "node-b" 0 (fun _ ↦ 100) [], .advance "node-b" 0 { now := fun _ ↦ 100 }] ++
    List.replicate 9 (.advance "node-a" 0 { now := fun _ ↦ 100 }) ++
    [.change "node-a" (.call (.addJobArtifact "job-1" report) fun _ ↦ 100),
      .advance "node-a" 0 { now := fun _ ↦ 100 }, .deliver "node-b" 3 (fun _ ↦ 105) [],
      .syncTick "node-b" ["job-1"]]

/-- The snapshot of node b costs node a its logs and its artifact. -/
theorem sync_destroys_results :
    ¬ StepsMeet (step fun _ ↦ 0) (MergeKeepsResults fun _ ↦ 0)
      (startMesh (fun _ ↦ "linux/x86_64") fun _ ↦ [])
      (lateTracker ++ [.deliver "node-a" 4 (fun _ ↦ 106) []]) := by
  intro h
  have hk := (((stepsMeet_append _ _ _).mp h).2 _ rfl).1
  obtain ⟨kept, hg, -, ha⟩ := hk _ "node-a" 4 _ _ _ _ _ rfl rfl rfl "job-1" _ rfl
  cases hg
  exact absurd (ha report (by decide)) (by decide)

end PeerDeploy.Cluster
