import PeerDeploy.Base.Transition
import PeerDeploy.Job.Manager

/-!
# Status changes of a job

The manager's methods and the gossip commands that call them, as one alphabet of events on
the job store (`crates/agent/src/job_manager.rs:138–307`,
`crates/agent/src/p2p/mod.rs:1313–1349`). Only `cancel_job` looks at the current status:
the results below say when a finished job stays as it is, and when the record that an
operation leaves prevails over the one it replaced.
-/

namespace PeerDeploy.Job

open PeerDeploy.Common PeerDeploy.Base

/-- Calls of the manager's methods on one job. -/
inductive ManagerOp where
  | startJob (jobId : String)
  | completeJob (jobId : String) (exitCode : Int)
  | failJob (jobId error : String)
  | cancelJob (jobId : String)
  | assignJob (jobId nodeId : String)
  | addJobLog (jobId level message : String)
  | addJobArtifact (jobId : String) (artifact : JobArtifact)
  deriving DecidableEq

namespace ManagerOp

/-- The job that the call is about. -/
def jobId : ManagerOp → String
  | startJob id | completeJob id _ | failJob id _ | cancelJob id | assignJob id _
  | addJobLog id _ _ | addJobArtifact id _ => id

/-- Run the call on the store. -/
def apply (s : JobManagerState) (now : Clock) : ManagerOp → JobManagerState
  | startJob id => s.startJob id now
  | completeJob id exitCode => s.completeJob id exitCode now
  | failJob id error => s.failJob id error now
  | cancelJob id => (s.cancelJob id now).1
  | assignJob id nodeId => s.assignJob id nodeId now
  | addJobLog id level message => s.addJobLog id level message now
  | addJobArtifact id artifact => s.addJobArtifact id artifact now

/-- What the call does to the record of its job, if there is one. -/
def change (now : Clock) (job : JobInstance) : ManagerOp → JobInstance
  | startJob _ => startRecord now job
  | completeJob _ exitCode => completeRecord exitCode now job
  | failJob _ error => failRecord error now job
  | cancelJob _ =>
    if job.status = .pending ∨ job.status = .running then cancelRecord now job else job
  | assignJob _ nodeId => assignRecord nodeId now job
  | addJobLog _ level message => job.addLog level message (now 0) (now 1)
  | addJobArtifact _ artifact => artifactRecord artifact now job

/-- The status that the call gives to a job it finds. -/
def nextStatus (status : JobStatus) : ManagerOp → JobStatus
  | startJob _ => .running
  | completeJob _ exitCode => exitStatus exitCode
  | failJob _ _ => .failed
  | cancelJob _ => if status = .pending ∨ status = .running then .cancelled else status
  | assignJob _ _ | addJobLog _ _ _ | addJobArtifact _ _ => status

/-- The call is a cancellation that `cancel_job` turns down. -/
def Refused (job : JobInstance) : ManagerOp → Prop
  | cancelJob _ => job.status.Terminal
  | _ => False

/-- The clock reading that the call leaves in `updated_at`. -/
def stamp (now : Clock) : ManagerOp → Nat
  | startJob _ | completeJob _ _ | failJob _ _ | cancelJob _ => now 3
  | assignJob _ _ => now 2
  | addJobLog _ _ _ => now 1
  | addJobArtifact _ _ => now 0

end ManagerOp

/-- The store effect of the job commands; `crates/agent/src/p2p/mod.rs:1313–1315,1322–1349`.
`none` for the commands that these handlers do not take. -/
def handleJobCommand (s : JobManagerState) (now : Clock) : Command → Option JobManagerState
  | .cancelJob id => some (s.cancelJob id now).1
  | .jobAccepted id assignedNode _ =>
    match s.getJob id with
    | some _ => some (s.updateJobAssignment id assignedNode now)
    | none => some s
  | .jobStarted id _ _ => some (s.startJob id now)
  | .jobCompleted id _ exitCode _ => some (s.completeJob id exitCode now)
  | .jobFailed id _ error _ => some (s.failJob id error now)
  | _ => none

/-- The manager call that a job command amounts to. -/
def commandOp : Command → Option ManagerOp
  | .cancelJob id => some (.cancelJob id)
  | .jobAccepted id assignedNode _ => some (.assignJob id assignedNode)
  | .jobStarted id _ _ => some (.startJob id)
  | .jobCompleted id _ exitCode _ => some (.completeJob id exitCode)
  | .jobFailed id _ error _ => some (.failJob id error)
  | _ => none

/-- What can happen to a node's job store: a method call or a delivered command. -/
inductive LifecycleEvent where
  | call (op : ManagerOp) (now : Clock)
  | deliver (cmd : Command) (now : Clock)

/-- One event on the store. -/
def lifecycleStep (s : JobManagerState) : LifecycleEvent → Option JobManagerState
  | .call op now => some (op.apply s now)
  | .deliver cmd now => handleJobCommand s now cmd

/-- The status recorded for a job. -/
def statusOf (s : JobManagerState) (jobId : String) : Option JobStatus :=
  (s.getJob jobId).map (·.status)

/-- Jobs that are finished in `s` have the same status in `t`. -/
def FinishedKept (s t : JobManagerState) : Prop :=
  ∀ jobId status, statusOf s jobId = some status → status.Terminal →
    statusOf t jobId = some status

/-- The call meets no finished job whose status it would change: no start, no result with
another outcome, no failure of a job that has not failed. -/
def MeetsNoFinished (s : JobManagerState) : ManagerOp → Prop
  | .startJob id => ∀ status, statusOf s id = some status → ¬ status.Terminal
  | .completeJob id exitCode =>
    ∀ status, statusOf s id = some status → status.Terminal → status = exitStatus exitCode
  | .failJob id _ =>
    ∀ status, statusOf s id = some status → status.Terminal → status = .failed
  | _ => True

/-- `MeetsNoFinished` for the call that an event makes. -/
def EventMeetsNoFinished (s : JobManagerState) : LifecycleEvent → Prop
  | .call op _ => MeetsNoFinished s op
  | .deliver cmd _ => ∀ op, commandOp cmd = some op → MeetsNoFinished s op

/-! ### The effect of one call -/

/-- A command handler runs exactly the manager call that the command amounts to. -/
theorem handleJobCommand_eq (s : JobManagerState) (now : Clock) (cmd : Command) :
    handleJobCommand s now cmd = (commandOp cmd).map (·.apply s now) := by
  cases cmd with
  | jobAccepted id assignedNode messageId =>
    simp only [handleJobCommand, commandOp, ManagerOp.apply, Option.map_some]
    cases h : s.getJob id with
    | some job => rfl
    | none =>
      -- `assign_job` looks the job up again and finds nothing to change
      rw [JobManagerState.assignJob, JobManagerState.updateJob_absent h]
  | _ => rfl

/-- A call changes the record of its own job and no other record. -/
theorem getJob_apply (s : JobManagerState) (now : Clock) (op : ManagerOp) (jobId : String) :
    (op.apply s now).getJob jobId =
      if op.jobId = jobId then (s.getJob jobId).map (op.change now) else s.getJob jobId := by
  by_cases hj : op.jobId = jobId
  · subst hj
    rw [if_pos rfl]
    cases op with
    | cancelJob id => exact (JobManagerState.getJob_cancelJob s id id now).trans (if_pos rfl)
    | _ => exact (JobManagerState.getJob_updateJob s _ _ _).trans (if_pos rfl)
  · rw [if_neg hj]
    cases op with
    | cancelJob id => exact (JobManagerState.getJob_cancelJob s id jobId now).trans (if_neg hj)
    | _ => exact (JobManagerState.getJob_updateJob s _ _ _).trans (if_neg hj)

/-- The status of the changed record. -/
theorem status_change (now : Clock) (op : ManagerOp) (job : JobInstance) :
    (op.change now job).status = op.nextStatus job.status := by
  cases op with
  | cancelJob id =>
    simp only [ManagerOp.change, ManagerOp.nextStatus]
    split <;> rfl
  | _ => rfl

/-- A call moves the status of its own job and of no other. -/
theorem statusOf_apply (s : JobManagerState) (now : Clock) (op : ManagerOp) (jobId : String) :
    statusOf (op.apply s now) jobId =
      if op.jobId = jobId then (statusOf s jobId).map op.nextStatus else statusOf s jobId := by
  unfold statusOf
  rw [getJob_apply]
  split
  · rw [Option.map_map, Option.map_map]
    congr 1
    funext job
    exact status_change now op job
  · rfl

/-! ### Finished jobs -/

private theorem finishedKept_refl (s : JobManagerState) : FinishedKept s s :=
  fun _ _ h _ ↦ h

private theorem finishedKept_trans (s t u : JobManagerState) (hst : FinishedKept s t)
    (htu : FinishedKept t u) : FinishedKept s u :=
  fun jobId status h ht ↦ htu jobId status (hst jobId status h ht) ht

-- A call keeps the finished jobs exactly when its own job, if finished, has the status that the
-- call gives.
private theorem finishedKept_apply_iff (s : JobManagerState) (now : Clock) (op : ManagerOp) :
    FinishedKept s (op.apply s now) ↔
      ∀ status, statusOf s op.jobId = some status → status.Terminal →
        op.nextStatus status = status := by
  constructor
  · intro h status hs ht
    have hk := h op.jobId status hs ht
    rw [statusOf_apply, if_pos rfl, hs] at hk
    exact Option.some.inj hk
  · intro h jobId status hs ht
    rw [statusOf_apply]
    split
    · next he =>
      subst he
      rw [hs, Option.map_some, h status hs ht]
    · exact hs

private theorem meetsNoFinished_iff (s : JobManagerState) (op : ManagerOp) :
    MeetsNoFinished s op ↔
      ∀ status, statusOf s op.jobId = some status → status.Terminal →
        op.nextStatus status = status := by
  cases op with
  | startJob id =>
    simp only [MeetsNoFinished, ManagerOp.jobId, ManagerOp.nextStatus]
    apply forall_congr'
    intro status
    apply forall_congr'
    intro _
    cases status <;> simp [JobStatus.Terminal]
  | completeJob id exitCode =>
    simp only [MeetsNoFinished, ManagerOp.jobId, ManagerOp.nextStatus, eq_comm]
  | failJob id error =>
    simp only [MeetsNoFinished, ManagerOp.jobId, ManagerOp.nextStatus, eq_comm]
  | cancelJob id =>
    simp only [MeetsNoFinished, ManagerOp.nextStatus, true_iff]
    intro status _ ht
    cases status <;> simp [JobStatus.Terminal] at ht ⊢
  | _ => simp [MeetsNoFinished, ManagerOp.nextStatus]

private theorem leads_finishedKept_iff (s : JobManagerState) (event : LifecycleEvent) :
    Leads lifecycleStep FinishedKept s event ↔ EventMeetsNoFinished s event := by
  have key (op : ManagerOp) (now : Clock) :
      FinishedKept s (op.apply s now) ↔ MeetsNoFinished s op :=
    (finishedKept_apply_iff s now op).trans (meetsNoFinished_iff s op).symm
  cases event with
  | call op now => simp [Leads, lifecycleStep, EventMeetsNoFinished, key]
  | deliver cmd now =>
    simp only [Leads, lifecycleStep, EventMeetsNoFinished, handleJobCommand_eq]
    cases commandOp cmd with
    | none => simp
    | some op => simp [key]

/-- In a run of calls and delivered commands the finished jobs keep their status for ever
exactly when no step starts a finished job or reports another outcome for it. -/
theorem finished_absorbing_iff (s : JobManagerState) (events : List LifecycleEvent) :
    Along lifecycleStep FinishedKept s events ↔
      StepsMeet lifecycleStep EventMeetsNoFinished s events := by
  rw [along_iff finishedKept_refl finishedKept_trans]
  exact stepsMeet_congr leads_finishedKept_iff s events

/-- A one-shot job that runs a system binary. -/
def buildSpec : JobSpec := { name := "build", runtime := .native "/bin/true" none [] [] }

/-- A store that holds one pending job. -/
def onePending : JobManagerState :=
  (({} : JobManagerState).submitJob "node-a" buildSpec none (some "job-1") fun _ ↦ 100).1

/-- A cancelled job whose executor reports success becomes completed, and a completed job
whose start message arrives late is running again. -/
theorem finished_not_absorbing :
    ¬ Along lifecycleStep FinishedKept onePending
      [.call (.startJob "job-1") fun _ ↦ 101, .call (.cancelJob "job-1") fun _ ↦ 102,
        .call (.completeJob "job-1" 0) fun _ ↦ 103] ∧
    ¬ Along lifecycleStep FinishedKept onePending
      [.deliver (.jobCompleted "job-1" "node-b" 0 "m-2") fun _ ↦ 101,
        .deliver (.jobStarted "job-1" "node-b" "m-1") fun _ ↦ 102] := by
  constructor
  · intro h
    have hk := h [_, _] [_] [] rfl _ _ rfl rfl "job-1" .cancelled (by decide) trivial
    revert hk
    decide
  · intro h
    have hk := h [_] [_] [] rfl _ _ rfl rfl "job-1" .completed (by decide) trivial
    revert hk
    decide

/-! ### Which of two records prevails -/

/-- The record `after` prevails over `before`: a store that holds `before` takes `after` when
it is merged, and a store that holds `after` keeps it when `before` is merged. -/
def Prevails (before after : JobInstance) : Prop :=
  (∀ peer : JobManagerState, peer.getJob before.id = some before →
      (peer.syncJob after).getJob before.id = some after) ∧
    ∀ store : JobManagerState, store.getJob before.id = some after →
      (store.syncJob before).getJob before.id = some after

private theorem prevails_iff {before after : JobInstance} (hid : after.id = before.id) :
    Prevails before after ↔ after = before ∨ before.updatedAt < after.updatedAt := by
  constructor
  · rintro ⟨htake, _⟩
    have hp := htake (JobManagerState.putJob {} before.id before) (by simp)
    rw [← hid, JobManagerState.getJob_syncJob_self, hid, JobManagerState.getJob_putJob,
      if_pos rfl] at hp
    simp only at hp
    split at hp
    · next hlt => exact .inr hlt
    · exact .inl (Option.some.inj hp).symm
  · intro h
    constructor
    · intro peer hb
      rw [← hid, JobManagerState.getJob_syncJob_self, hid, hb]
      rcases h with rfl | hlt
      · simp
      · simp [hlt]
    · intro store ha
      rw [JobManagerState.getJob_syncJob_self, ha]
      have hn : ¬ after.updatedAt < before.updatedAt ∨ after = before := by
        rcases h with rfl | hlt
        · exact .inr rfl
        · exact .inl (by omega)
      rcases hn with hn | rfl
      · simp [hn]
      · simp

/-- No call changes the id of a record. -/
theorem id_change (now : Clock) (op : ManagerOp) (job : JobInstance) :
    (op.change now job).id = job.id := by
  cases op with
  | cancelJob id =>
    simp only [ManagerOp.change]
    split <;> rfl
  | _ => rfl

/-- Every call keeps the records under their own ids. -/
theorem keyed_apply {s : JobManagerState} (h : s.Keyed) (now : Clock) (op : ManagerOp) :
    (op.apply s now).Keyed := by
  intro jobId job hj
  rw [getJob_apply] at hj
  split at hj
  · obtain ⟨held, hh, rfl⟩ := Option.map_eq_some_iff.mp hj
    rw [id_change, h jobId held hh]
  · exact h jobId job hj

/-- A cancellation that is turned down leaves the record alone. -/
theorem change_of_refused {op : ManagerOp} {job : JobInstance} (now : Clock)
    (h : op.Refused job) : op.change now job = job := by
  cases op with
  | cancelJob id =>
    simp only [ManagerOp.Refused] at h
    simp only [ManagerOp.change]
    cases hs : job.status <;> simp_all [JobStatus.Terminal]
  | _ => exact h.elim

private theorem refused_or_cancelled (job : JobInstance) :
    job.status.Terminal ∨ job.status = .pending ∨ job.status = .running := by
  cases job.status <;> simp [JobStatus.Terminal]

/-- Every other call leaves its stamp and one more log entry or artifact. -/
theorem change_grows {op : ManagerOp} {job : JobInstance} (now : Clock)
    (h : ¬ op.Refused job) :
    (op.change now job).updatedAt = op.stamp now ∧
      job.logs.length + job.artifacts.length <
        (op.change now job).logs.length + (op.change now job).artifacts.length := by
  cases op with
  | cancelJob id =>
    have hs := (refused_or_cancelled job).resolve_left h
    simp only [ManagerOp.change, if_pos hs, ManagerOp.stamp]
    simp [cancelRecord, JobInstance.cancel, JobInstance.addLog]
  | _ =>
    simp [ManagerOp.change, ManagerOp.stamp, startRecord, completeRecord, failRecord,
      assignRecord, artifactRecord, JobInstance.start, JobInstance.complete, JobInstance.fail,
      JobInstance.addLog]

/-- The record that a call leaves prevails over the one it found exactly when the clock
reading it stamps is later than the old stamp, or the call is a cancellation turned down. -/
theorem apply_prevails_iff (s : JobManagerState) (op : ManagerOp) (now : Clock)
    (before after : JobInstance) (hb : s.getJob op.jobId = some before)
    (ha : (op.apply s now).getJob op.jobId = some after) :
    Prevails before after ↔ op.Refused before ∨ before.updatedAt < op.stamp now := by
  rw [getJob_apply, if_pos rfl, hb] at ha
  obtain rfl : op.change now before = after := Option.some.inj ha
  rw [prevails_iff (id_change now op before)]
  by_cases hr : op.Refused before
  · simp [hr, change_of_refused now hr]
  · obtain ⟨hu, hl⟩ := change_grows now hr
    have hne : op.change now before ≠ before := by
      intro he
      rw [he] at hl
      exact Nat.lt_irrefl _ hl
    simp [hr, hne, hu]

/-- A job started at second 101, and its completion stamped within the same second. -/
def startedJob : JobManagerState := onePending.startJob "job-1" fun _ ↦ 101

/-- A later clock reading makes the completion prevail over the running record. -/
theorem apply_prevails_iff_next_second :
    ∃ before after, startedJob.getJob "job-1" = some before ∧
      ((ManagerOp.completeJob "job-1" 0).apply startedJob fun _ ↦ 102).getJob "job-1" =
        some after ∧
      Prevails before after :=
  ⟨_, _, rfl, rfl, (apply_prevails_iff startedJob (.completeJob "job-1" 0) (fun _ ↦ 102) _ _
    rfl rfl).mpr (.inr (by decide))⟩

/-- Within one second the completion does not prevail: a peer that holds the running record
keeps it. -/
theorem same_second_not_prevails :
    ∃ before after, startedJob.getJob "job-1" = some before ∧
      ((ManagerOp.completeJob "job-1" 0).apply startedJob fun _ ↦ 101).getJob "job-1" =
        some after ∧
      ¬ Prevails before after := by
  refine ⟨_, _, rfl, rfl, ?_⟩
  rintro ⟨htake, _⟩
  have hp := htake startedJob (by decide)
  revert hp
  decide

end PeerDeploy.Job
