import PeerDeploy.Base.Transition
import PeerDeploy.Job.Lifecycle
import PeerDeploy.Storage.ContentStore

/-!
# The task behind a SubmitJob message

`crates/agent/src/p2p/mod.rs:1136–1289` and the result handling of
`crates/agent/src/p2p/jobs.rs`. The handler is a spawned task that suspends at every
`await`, so it is a machine with one step per visit to the job store; other tasks and
messages act on the same store between two steps. The locality delay only postpones the
execution and is left out, but the slice of the digest text that computes it can panic.
-/

namespace PeerDeploy.Cluster

open PeerDeploy.Common PeerDeploy.Base PeerDeploy.Job PeerDeploy.Storage

/-- Where a task stands: the step it takes next, or how it ended. -/
inductive SubmitPc where
  | submit
  | eligibility
  | check
  | assign
  | accept
  | locality
  | start
  | announce
  | spawn
  /-- The execution has been spawned. -/
  | executing
  /-- A service job ended normally; its log line is written, its result is not. -/
  | closing
  /-- The executor has recorded its result. -/
  | finished
  /-- Not eligible on this node. -/
  | ignored
  /-- Already accepted by some node. -/
  | declined
  /-- The task panicked. -/
  | crashed
  deriving DecidableEq, Repr

/-- A handler task: the message, the roles cloned when it was spawned, and its position. -/
structure SubmitTask where
  originNodeId : String
  jobId : String
  spec : JobSpec
  roles : List String
  pc : SubmitPc := .submit
  deriving DecidableEq, Repr

/-- The identity of a node: its peer id and its `os/arch` text. -/
structure Host where
  nodeId : String
  platform : String
  deriving DecidableEq, Repr

/-- What a step reads from outside: the clock, a fresh uuid, the outcome of an execution. -/
structure StepInput where
  now : Clock
  messageId : String := ""
  result : Except String Unit := .ok ()

/-- `crates/agent/src/p2p/mod.rs:1149–1161`. -/
def eligible (host : Host) (roles : List String) (spec : JobSpec) : Bool :=
  match spec.targeting with
  | none => true
  | some t =>
    t.platform.all (host.platform == ·) &&
      (t.tags.isEmpty || t.tags.any (roles.contains ·)) &&
      (t.nodeIds.isEmpty || t.nodeIds.any (· == host.nodeId))

/-- `store.has` can slice the digest text; `crates/agent/src/p2p/mod.rs:1195–1202`. -/
def digestSlices (spec : JobSpec) : Bool :=
  spec.runtime.digest.all fun digest ↦ (pathForDigest "" digest).isSome

/-- Record the outcome of an execution and report it; `crates/agent/src/p2p/jobs.rs:43–64` for
one-shot and recurring jobs, lines 194–210 for services, which report to no other node. -/
def recordResult (host : Host) (s : JobManagerState) (task : SubmitTask) (input : StepInput) :
    JobManagerState × SubmitPc × List Command :=
  match task.spec.jobType, input.result with
  | .service, .ok _ =>
    (s.addJobLog task.jobId "info" "Service job completed normally" input.now, .closing, [])
  | .service, .error error => (s.failJob task.jobId error input.now, .finished, [])
  | _, .ok _ =>
    (s.completeJob task.jobId 0 input.now, .finished,
      [.jobCompleted task.jobId host.nodeId 0 input.messageId])
  | _, .error error =>
    (s.failJob task.jobId error input.now, .finished,
      [.jobFailed task.jobId host.nodeId error input.messageId])

/-- One step of a task: the store after it, the next position, and the commands handed to
the broadcast channel. `none` when the task has ended. -/
def SubmitTask.advance (host : Host) (s : JobManagerState) (task : SubmitTask)
    (input : StepInput) : Option (JobManagerState × SubmitPc × List Command) :=
  match task.pc with
  | .submit =>
    some ((s.submitJob host.nodeId task.spec (some task.originNodeId) (some task.jobId)
      input.now).1, .eligibility, [])
  | .eligibility =>
    some (s, if eligible host task.roles task.spec then .check else .ignored, [])
  | .check =>
    some (s, if (s.getJob task.jobId).any (·.assignedNode.isSome) then .declined else .assign,
      [])
  | .assign => some (s.assignJob task.jobId host.nodeId input.now, .accept, [])
  | .accept => some (s, .locality, [.jobAccepted task.jobId host.nodeId input.messageId])
  | .locality => some (s, if digestSlices task.spec then .start else .crashed, [])
  | .start => some (s.startJob task.jobId input.now, .announce, [])
  | .announce =>
    some (s.addJobLog task.jobId "info" "Job execution started on this node" input.now, .spawn,
      [.jobStarted task.jobId host.nodeId input.messageId])
  | .spawn => some (s, .executing, [])
  | .executing => some (recordResult host s task input)
  | .closing => some (s.completeJob task.jobId 0 input.now, .finished, [])
  | .finished | .ignored | .declined | .crashed => none

/-- The task running alone: one step on the store and its own position. -/
def aloneStep (host : Host) (st : JobManagerState × SubmitTask) (input : StepInput) :
    Option (JobManagerState × SubmitTask) :=
  (st.2.advance host st.1 input).map fun (s, pc, _) ↦ (s, { st.2 with pc })

/-- Process one SubmitJob message with nothing in between, up to the spawn of the execution:
the store after it and how the handler ended. `clock i` are the readings of its `i`-th
visit to the store. -/
def handleSubmitJob (host : Host) (roles : List String) (s : JobManagerState)
    (originNodeId jobId : String) (spec : JobSpec) (clock : Nat → Clock) :
    JobManagerState × SubmitPc :=
  let s₁ := (s.submitJob host.nodeId spec (some originNodeId) (some jobId) (clock 0)).1
  if !eligible host roles spec then (s₁, .ignored)
  else if (s₁.getJob jobId).any (·.assignedNode.isSome) then (s₁, .declined)
  else
    let s₂ := s₁.assignJob jobId host.nodeId (clock 1)
    if !digestSlices spec then (s₂, .crashed)
    else ((s₂.startJob jobId (clock 2)).addJobLog jobId "info"
      "Job execution started on this node" (clock 3), .executing)

/-! ### The handler running alone -/

/-- `handleSubmitJob` is the run of the task's steps when nothing comes in between. -/
theorem handleSubmitJob_eq_run (host : Host) (roles : List String) (s : JobManagerState)
    (originNodeId jobId : String) (spec : JobSpec) (clock : Nat → Clock) :
    ∃ inputs, run (aloneStep host) (s, { originNodeId, jobId, spec, roles }) inputs =
      some ((handleSubmitJob host roles s originNodeId jobId spec clock).1,
        { originNodeId, jobId, spec, roles,
          pc := (handleSubmitJob host roles s originNodeId jobId spec clock).2 }) := by
  by_cases he : eligible host roles spec
  · by_cases ha : (((s.submitJob host.nodeId spec (some originNodeId) (some jobId)
        (clock 0)).1.getJob jobId).any (·.assignedNode.isSome)) = true
    · refine ⟨[{ now := clock 0 }, { now := clock 0 }, { now := clock 0 }], ?_⟩
      simp [run, aloneStep, SubmitTask.advance, handleSubmitJob, he, ha]
    · by_cases hd : digestSlices spec
      · refine ⟨[{ now := clock 0 }, { now := clock 0 }, { now := clock 0 }, { now := clock 1 },
          { now := clock 1 }, { now := clock 1 }, { now := clock 2 }, { now := clock 3 },
          { now := clock 3 }], ?_⟩
        simp [run, aloneStep, SubmitTask.advance, handleSubmitJob, he, ha, hd]
      · refine ⟨[{ now := clock 0 }, { now := clock 0 }, { now := clock 0 }, { now := clock 1 },
          { now := clock 1 }, { now := clock 1 }], ?_⟩
        simp [run, aloneStep, SubmitTask.advance, handleSubmitJob, he, ha, hd]
  · refine ⟨[{ now := clock 0 }, { now := clock 0 }], ?_⟩
    simp [run, aloneStep, SubmitTask.advance, handleSubmitJob, he]

/-- The job has been taken up: some node has it, or it is past the pending state. -/
def Taken (job : JobInstance) : Prop := job.assignedNode.isSome ∨ job.status ≠ .pending

/-- The two records agree on everything that tells the job's progress. -/
def SameProgress (a b : JobInstance) : Prop :=
  a.status = b.status ∧ a.assignedNode = b.assignedNode ∧ a.startedAt = b.startedAt ∧
    a.completedAt = b.completedAt ∧ a.exitCode = b.exitCode ∧ a.logs = b.logs ∧
    a.artifacts = b.artifacts

/-- Processing the message left the record of the job as it was and started nothing. -/
def SubmitKeeps (out : JobManagerState × SubmitPc) (jobId : String) (held : JobInstance) : Prop :=
  (∃ record, out.1.getJob jobId = some record ∧ SameProgress record held) ∧
    out.2 ≠ .executing

-- The insert has already replaced the record when the handler looks for an assignment.
private theorem handleSubmitJob_cases (host : Host) (roles : List String) (s : JobManagerState)
    (originNodeId jobId : String) (spec : JobSpec) (clock : Nat → Clock) :
    let fresh := JobManagerState.freshRecord jobId originNodeId spec (clock 0)
    let out := handleSubmitJob host roles s originNodeId jobId spec clock
    (eligible host roles spec = false ∧ out.2 = .ignored ∧ out.1.getJob jobId = some fresh) ∨
      (eligible host roles spec = true ∧ digestSlices spec = false ∧ out.2 = .crashed ∧
        out.1.getJob jobId = some (assignRecord host.nodeId (clock 1) fresh)) ∨
      (eligible host roles spec = true ∧ digestSlices spec = true ∧ out.2 = .executing) := by
  intro fresh out
  have hs : (s.submitJob host.nodeId spec (some originNodeId) (some jobId)
      (clock 0)).1.getJob jobId = some fresh := by
    rw [JobManagerState.getJob_submitJob, if_pos rfl]
  have hn : fresh.assignedNode = none := rfl
  cases he : eligible host roles spec with
  | false => simp [out, handleSubmitJob, he, hs]
  | true =>
    cases hd : digestSlices spec with
    | false => simp [out, handleSubmitJob, he, hd, hs, hn, JobManagerState.assignJob]
    | true => simp [out, handleSubmitJob, he, hd, hs, hn]

private theorem fresh_not_taken (jobId originNodeId : String) (spec : JobSpec) (now : Clock)
    (held : JobInstance) (ht : Taken held) :
    ¬ SameProgress (JobManagerState.freshRecord jobId originNodeId spec now) held := by
  rintro ⟨hs, ha, -⟩
  rcases ht with ht | ht
  · rw [← ha] at ht
    exact absurd ht (by simp [JobManagerState.freshRecord, JobInstance.new, JobInstance.addLog])
  · exact ht hs.symm

/-- The record stands as a submission at those readings leaves it that got no further than the
assignment. -/
def JustAssigned (nodeId : String) (clock : Nat → Clock) (held : JobInstance) : Prop :=
  held.status = .pending ∧ held.assignedNode = some nodeId ∧ held.startedAt = none ∧
    held.completedAt = none ∧ held.exitCode = none ∧
    held.logs = [⟨clock 0 2, "info", "Job submitted"⟩,
      ⟨clock 1 0, "info", s!"Job assigned to node {nodeId}"⟩] ∧
    held.artifacts = []

private theorem sameProgress_assigned (nodeId jobId originNodeId : String) (spec : JobSpec)
    (clock : Nat → Clock) (held : JobInstance) :
    SameProgress (assignRecord nodeId (clock 1)
        (JobManagerState.freshRecord jobId originNodeId spec (clock 0))) held ↔
      JustAssigned nodeId clock held := by
  simp only [SameProgress, JustAssigned, eq_comm, assignRecord, JobManagerState.freshRecord,
    JobInstance.new, JobInstance.addLog, List.nil_append, List.cons_append]

/-- A SubmitJob message for a job that has been taken up leaves its record alone and starts
nothing only when the node is eligible, the handler dies on the digest text of the job, and
the record is that of an earlier submission at the same clock readings which died there, too. -/
theorem resubmit_keeps_iff (host : Host) (roles : List String) (s : JobManagerState)
    (originNodeId jobId : String) (spec : JobSpec) (clock : Nat → Clock) (held : JobInstance)
    (_hh : s.getJob jobId = some held) (ht : Taken held) :
    SubmitKeeps (handleSubmitJob host roles s originNodeId jobId spec clock) jobId held ↔
      eligible host roles spec = true ∧ digestSlices spec = false ∧
        JustAssigned host.nodeId clock held := by
  rw [← sameProgress_assigned host.nodeId jobId originNodeId spec clock held]
  rcases handleSubmitJob_cases host roles s originNodeId jobId spec clock with
    ⟨he, hp, hr⟩ | ⟨he, hd, hp, hr⟩ | ⟨he, hd, hp⟩
  · simp [SubmitKeeps, hp, hr, he, fresh_not_taken _ _ _ _ held ht]
  · simp [SubmitKeeps, hp, hr, he, hd]
  · simp [SubmitKeeps, hp, hd]

/-- A Linux node. -/
def nodeA : Host := ⟨"node-a", "linux/x86_64"⟩

/-- The store of a node that took up a job and runs it. -/
def ranOnce : JobManagerState :=
  (handleSubmitJob nodeA [] {} "cli" "job-1" buildSpec fun _ _ ↦ 100).1

/-- The characterization at a job that runs on the node. -/
theorem resubmit_keeps_iff_running :
    ∃ held, ranOnce.getJob "job-1" = some held ∧ held.status = .running ∧
      (SubmitKeeps (handleSubmitJob nodeA [] ranOnce "cli" "job-1" buildSpec fun _ _ ↦ 200)
          "job-1" held ↔
        eligible nodeA [] buildSpec = true ∧ digestSlices buildSpec = false ∧
          JustAssigned nodeA.nodeId (fun _ _ ↦ 200) held) :=
  ⟨_, rfl, rfl, resubmit_keeps_iff nodeA [] ranOnce "cli" "job-1" buildSpec (fun _ _ ↦ 200) _ rfl
    (.inr (by decide))⟩

/-- The second delivery of the same message starts the running job again. -/
theorem resubmit_restarts :
    ∃ held, ranOnce.getJob "job-1" = some held ∧ Taken held ∧
      ¬ SubmitKeeps (handleSubmitJob nodeA [] ranOnce "cli" "job-1" buildSpec fun _ _ ↦ 200)
        "job-1" held := by
  refine ⟨_, rfl, .inr (by decide), ?_⟩
  rintro ⟨-, hp⟩
  exact hp rfl

end PeerDeploy.Cluster
