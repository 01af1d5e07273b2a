import PeerDeploy.Base.Text
import PeerDeploy.Common.Command
import Mathlib.Data.List.Sort

/-!
# The job store

`crates/agent/src/job_manager.rs`: the state behind the manager's lock and the operations
on it. Every operation holds the lock for the whole change it makes to `jobs`, so each is
one function of the state. Saving to `jobs.json` and the `last_update` stamp follow the
change and are not part of it.
-/

namespace PeerDeploy.Job

open PeerDeploy.Common PeerDeploy.Base

/-- The wall-clock readings, in whole seconds, that one operation makes one after the other.
Nothing is assumed about them: a clock may stand still, jump or be ahead of another node's. -/
abbrev Clock := Nat → Nat

/-- `crates/agent/src/job_manager.rs:17–21`, with the default of lines 29–36. -/
structure JobManagerState where
  jobs : Std.ExtTreeMap String JobInstance := ∅
  nextId : Nat := 1

/-! ### Changes of one record -/

/-- The record of a job given to a node; `crates/agent/src/job_manager.rs:141–149`. -/
def assignRecord (nodeId : String) (now : Clock) (job : JobInstance) : JobInstance :=
  { ({ job with assignedNode := some nodeId }.addLog "info"
      s!"Job assigned to node {nodeId}" (now 0) (now 1)) with updatedAt := now 2 }

/-- The record of a started job; `crates/agent/src/job_manager.rs:168–173`. -/
def startRecord (now : Clock) (job : JobInstance) : JobInstance :=
  (job.start (job.assignedNode.getD "unknown") (now 0) (now 1)).addLog "info" "Job started"
    (now 2) (now 3)

/-- The record of a job that ended with an exit code; `crates/agent/src/job_manager.rs:188–192`. -/
def completeRecord (exitCode : Int) (now : Clock) (job : JobInstance) : JobInstance :=
  (job.complete exitCode (now 0) (now 1)).addLog "info"
    s!"Job completed with exit code {exitCode}" (now 2) (now 3)

/-- The record of a failed job; `crates/agent/src/job_manager.rs:207–208`. -/
def failRecord (error : String) (now : Clock) (job : JobInstance) : JobInstance :=
  (job.fail error (now 0) (now 1)).addLog "error" s!"Job failed: {error}" (now 2) (now 3)

/-- The record of a cancelled job; `crates/agent/src/job_manager.rs:224–225`. -/
def cancelRecord (now : Clock) (job : JobInstance) : JobInstance :=
  (job.cancel (now 0) (now 1)).addLog "warn" "Job cancelled" (now 2) (now 3)

/-- The record with one more artifact; `crates/agent/src/job_manager.rs:295–299`. -/
def artifactRecord (artifact : JobArtifact) (now : Clock) (job : JobInstance) : JobInstance :=
  { job with artifacts := job.artifacts ++ [artifact], updatedAt := now 0 }

namespace JobManagerState

/-! ### Operations -/

/-- `crates/agent/src/job_manager.rs:246–249`. -/
def getJob (s : JobManagerState) (jobId : String) : Option JobInstance := s.jobs[jobId]?

/-- `state.jobs.insert`: a record replaces whatever was stored under the id. -/
def putJob (s : JobManagerState) (jobId : String) (job : JobInstance) : JobManagerState :=
  { s with jobs := s.jobs.insert jobId job }

/-- `if let Some(job) = state.jobs.get_mut(job_id)`: change a record that exists. -/
def updateJob (s : JobManagerState) (jobId : String) (change : JobInstance → JobInstance) :
    JobManagerState :=
  { s with jobs := s.jobs.modify jobId change }

/-- The id of a submission and the counter after it; `crates/agent/src/job_manager.rs:112–120`. -/
def chooseId (s : JobManagerState) (origin : String) : Option String → String × Nat
  | some id => (id, s.nextId)
  | none => (s!"{origin}-{s.nextId}", s.nextId + 1)

/-- The record that a submission writes; `crates/agent/src/job_manager.rs:122–123`. -/
def freshRecord (id origin : String) (spec : JobSpec) (now : Clock) : JobInstance :=
  (JobInstance.new id origin spec (now 0) (now 1)).addLog "info" "Job submitted" (now 2) (now 3)

/-- Insert a fresh record, also over an existing one; `crates/agent/src/job_manager.rs:105–136`. -/
def submitJob (s : JobManagerState) (nodeId : String) (spec : JobSpec)
    (originNodeId jobId : Option String) (now : Clock) : JobManagerState × String :=
  let origin := originNodeId.getD nodeId
  let (id, nextId) := s.chooseId origin jobId
  ({ s with nextId }.putJob id (freshRecord id origin spec now), id)

/-- `crates/agent/src/job_manager.rs:138–159`. -/
def assignJob (s : JobManagerState) (jobId nodeId : String) (now : Clock) : JobManagerState :=
  s.updateJob jobId (assignRecord nodeId now)

/-- `crates/agent/src/job_manager.rs:161–163`. -/
def updateJobAssignment (s : JobManagerState) (jobId nodeId : String) (now : Clock) :
    JobManagerState :=
  s.assignJob jobId nodeId now

/-- `crates/agent/src/job_manager.rs:165–183`. -/
def startJob (s : JobManagerState) (jobId : String) (now : Clock) : JobManagerState :=
  s.updateJob jobId (startRecord now)

/-- `crates/agent/src/job_manager.rs:185–202`. -/
def completeJob (s : JobManagerState) (jobId : String) (exitCode : Int) (now : Clock) :
    JobManagerState :=
  s.updateJob jobId (completeRecord exitCode now)

/-- `crates/agent/src/job_manager.rs:204–218`. -/
def failJob (s : JobManagerState) (jobId error : String) (now : Clock) : JobManagerState :=
  s.updateJob jobId (failRecord error now)

/-- The only operation that looks at the status first; `crates/agent/src/job_manager.rs:220–244`. -/
def cancelJob (s : JobManagerState) (jobId : String) (now : Clock) : JobManagerState × Bool :=
  match s.getJob jobId with
  | some job =>
    if job.status = .pending ∨ job.status = .running then
      (s.updateJob jobId (cancelRecord now), true)
    else (s, false)
  | none => (s, false)

/-- `crates/agent/src/job_manager.rs:279–290`. -/
def addJobLog (s : JobManagerState) (jobId level message : String) (now : Clock) :
    JobManagerState :=
  s.updateJob jobId fun job ↦ job.addLog level message (now 0) (now 1)

/-- `crates/agent/src/job_manager.rs:292–307`. -/
def addJobArtifact (s : JobManagerState) (jobId : String) (artifact : JobArtifact)
    (now : Clock) : JobManagerState :=
  s.updateJob jobId (artifactRecord artifact now)

/-- Merge one remote record, the newer one whole; `crates/agent/src/job_manager.rs:440–453`. -/
def syncJob (s : JobManagerState) (job : JobInstance) : JobManagerState :=
  match s.getJob job.id with
  | some held => if held.updatedAt < job.updatedAt then s.putJob job.id job else s
  | none => s.putJob job.id job

/-- `crates/agent/src/job_manager.rs:455–466`. -/
def syncJobs (s : JobManagerState) (jobs : List JobInstance) : JobManagerState :=
  jobs.foldl syncJob s

end JobManagerState

/-- The status named by a filter text; `crates/agent/src/job_manager.rs:257–264`. -/
def filterStatus (text : String) : Option JobStatus :=
  match Text.toLowercase text with
  | "pending" => some .pending
  | "running" => some .running
  | "completed" => some .completed
  | "failed" => some .failed
  | "cancelled" => some .cancelled
  | _ => none

/-- `usize::MAX` on a 64-bit host. -/
def usizeMax : Nat := 2 ^ 64 - 1

/-- The newest submissions that match; `crates/agent/src/job_manager.rs:251–277`. The records
come in the order in which the hash map yields them. -/
def listJobs (records : List JobInstance) (statusFilter : Option String) (limit : Nat) :
    List JobInstance :=
  let matching : List JobInstance := match statusFilter.bind filterStatus with
    | some status => records.filter fun job : JobInstance ↦ job.status = status
    | none => records
  (matching.insertionSort fun a b ↦ b.submittedAt ≤ a.submittedAt).take limit

namespace JobManagerState

/-! ### What an operation does to the record of an id -/

/-- An inserted record is found under its id, and the other ids are untouched. -/
@[simp] theorem getJob_putJob (s : JobManagerState) (jobId other : String) (job : JobInstance) :
    (s.putJob jobId job).getJob other = if jobId = other then some job else s.getJob other := by
  simp only [putJob, getJob, Std.ExtTreeMap.getElem?_insert, Std.compare_eq_iff_eq]

/-- A changed record is the change of the old one, and the other ids are untouched. -/
@[simp] theorem getJob_updateJob (s : JobManagerState) (jobId other : String)
    (change : JobInstance → JobInstance) :
    (s.updateJob jobId change).getJob other =
      if jobId = other then (s.getJob jobId).map change else s.getJob other := by
  simp only [updateJob, getJob, Std.ExtTreeMap.getElem?_modify, Std.compare_eq_iff_eq]

/-- Stores with the same counter and the same record under every id are the same. -/
theorem ext_getJob {s t : JobManagerState} (hn : s.nextId = t.nextId)
    (hj : ∀ jobId, s.getJob jobId = t.getJob jobId) : s = t := by
  cases s
  cases t
  congr 1
  exact Std.ExtTreeMap.ext_getElem? hj

/-- There is nothing to change under an id that holds no record. -/
theorem updateJob_absent {s : JobManagerState} {jobId : String} (h : s.getJob jobId = none)
    (change : JobInstance → JobInstance) : s.updateJob jobId change = s := by
  apply ext_getJob
  · rfl
  · intro other
    rw [getJob_updateJob]
    split
    · next he => rw [h, ← he, h]; rfl
    · rfl

/-- The record that a merge leaves under the id of the incoming one. -/
theorem getJob_syncJob_self (s : JobManagerState) (job : JobInstance) :
    (s.syncJob job).getJob job.id =
      match s.getJob job.id with
      | some held => if held.updatedAt < job.updatedAt then some job else some held
      | none => some job := by
  unfold syncJob
  cases h : s.getJob job.id with
  | none => simp
  | some held =>
    simp only
    split
    · simp
    · exact h

/-- A merge touches no id but that of the incoming record. -/
theorem getJob_syncJob_ne (s : JobManagerState) (job : JobInstance) {other : String}
    (h : job.id ≠ other) : (s.syncJob job).getJob other = s.getJob other := by
  unfold syncJob
  cases s.getJob job.id with
  | none => simp [h]
  | some held =>
    simp only
    split
    · simp [h]
    · rfl

/-- A cancellation changes nothing unless the job is pending or running. -/
theorem getJob_cancelJob (s : JobManagerState) (jobId other : String) (now : Clock) :
    (s.cancelJob jobId now).1.getJob other =
      if jobId = other then
        (s.getJob jobId).map fun job ↦
          if job.status = .pending ∨ job.status = .running then cancelRecord now job else job
      else s.getJob other := by
  unfold cancelJob
  by_cases ho : jobId = other
  · subst ho
    cases h : s.getJob jobId with
    | none => simp [h]
    | some job =>
      simp only
      split
      · next hs => simp [h, hs]
      · next hs => simp [h, hs]
  · cases s.getJob jobId with
    | none => simp [ho]
    | some job =>
      simp only
      split <;> simp [ho]

/-- A submission under a given id replaces the record of that id by a fresh one. -/
theorem getJob_submitJob (s : JobManagerState) (nodeId origin jobId other : String)
    (spec : JobSpec) (now : Clock) :
    (s.submitJob nodeId spec (some origin) (some jobId) now).1.getJob other =
      if jobId = other then some (freshRecord jobId origin spec now) else s.getJob other := by
  change (JobManagerState.putJob s jobId (freshRecord jobId origin spec now)).getJob other = _
  rw [getJob_putJob]

/-! ### Records stay under their own ids -/

/-- Every record is stored under the id it carries. -/
def Keyed (s : JobManagerState) : Prop := ∀ jobId job, s.getJob jobId = some job → job.id = jobId

/-- The fresh store holds no record. -/
theorem keyed_empty : Keyed {} := by
  intro jobId job h
  simp [getJob] at h

/-- Inserting a record under its own id keeps the store keyed. -/
theorem keyed_putJob {s : JobManagerState} (h : s.Keyed) (job : JobInstance) :
    (s.putJob job.id job).Keyed := by
  intro jobId found hf
  rw [getJob_putJob] at hf
  split at hf
  · next he => rw [← Option.some.inj hf, he]
  · exact h jobId found hf

/-- A submission keeps the store keyed. -/
theorem keyed_submitJob {s : JobManagerState} (h : s.Keyed) (nodeId : String) (spec : JobSpec)
    (originNodeId jobId : Option String) (now : Clock) :
    (s.submitJob nodeId spec originNodeId jobId now).1.Keyed :=
  keyed_putJob (s := { s with nextId := _ }) h (freshRecord _ _ spec now)

/-- Merging a record keeps the store keyed. -/
theorem keyed_syncJob {s : JobManagerState} (h : s.Keyed) (job : JobInstance) :
    (s.syncJob job).Keyed := by
  unfold syncJob
  cases s.getJob job.id with
  | none => exact keyed_putJob h job
  | some held =>
    simp only
    split
    · exact keyed_putJob h job
    · exact h

/-- Merging a list of records keeps the store keyed. -/
theorem keyed_syncJobs {s : JobManagerState} (h : s.Keyed) (jobs : List JobInstance) :
    (s.syncJobs jobs).Keyed := by
  induction jobs generalizing s with
  | nil => exact h
  | cons job rest ih => exact ih (keyed_syncJob h job)

end JobManagerState

end PeerDeploy.Job
